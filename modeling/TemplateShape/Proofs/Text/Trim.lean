import Mathlib.Data.List.TakeWhile
import TemplateShape.Text.Blank

/-! # Texts without the blanks at their ends -/

namespace TemplateShape.Blank

theorem exists_trim (text : List Char) : ∃ front back, text = front ++ trim text ++ back ∧
    (∀ c ∈ front, isBlank c = true) ∧ ∀ c ∈ back, isBlank c = true := by
  have hsplit : text.dropWhile isBlank =
      trim text ++ ((text.dropWhile isBlank).reverse.takeWhile isBlank).reverse := by
    rw [trim, ← List.reverse_append, List.takeWhile_append_dropWhile, List.reverse_reverse]
  refine ⟨text.takeWhile isBlank, ((text.dropWhile isBlank).reverse.takeWhile isBlank).reverse,
    ?_, fun c hc => List.mem_takeWhile_imp hc,
    fun c hc => List.mem_takeWhile_imp (List.mem_reverse.mp hc)⟩
  rw [List.append_assoc, ← hsplit, List.takeWhile_append_dropWhile]

theorem trim_eq_self {text : List Char} (h : ∀ c ∈ text, isBlank c = false) : trim text = text := by
  have hkept : ∀ other : List Char, (∀ c ∈ other, isBlank c = false) →
      other.dropWhile isBlank = other := by
    intro other hother
    rw [List.dropWhile_eq_self_iff]
    intro hpos
    simp [hother _ (List.getElem_mem hpos)]
  rw [trim, hkept text h, hkept text.reverse fun c hc => h c (List.mem_reverse.mp hc),
    List.reverse_reverse]

end TemplateShape.Blank
