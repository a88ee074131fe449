import TemplateShape.Path
import TemplateShape.Proofs.Scan.Written

/-! # Texts of steps

An index is written in digits, so it is never taken for a name. -/

namespace TemplateShape.Step

theorem isDigit_of_mem_text {i : Nat} {c : Char} (h : c ∈ (index i).text.toList) :
    c.isDigit = true := by
  rw [text, String.toList_ofList] at h
  exact Nat.isDigit_of_mem_toDigits (by decide) (by decide) h

theorem point_notMem_text_index (i : Nat) : '.' ∉ (index i).text.toList := by
  intro hmem
  have hdigit := isDigit_of_mem_text hmem
  exact absurd hdigit (by decide)

theorem text_index_inj {i j : Nat} : (index i).text = (index j).text ↔ i = j := by
  constructor
  · intro h
    have hdigits : Decimal.digitsOf i = Decimal.digitsOf j := String.ofList_injective h
    rw [← Decimal.ofDigits_digitsOf i, hdigits, Decimal.ofDigits_digitsOf]
  · exact congrArg fun k => (index k).text

theorem not_isName_text_index (i : Nat) : Ascii.isName (index i).text.toList = false := by
  rw [← Bool.not_eq_true]
  intro hname
  obtain ⟨c, cs, htext, hstart, -⟩ := Scan.exists_of_isName hname
  have hdigit : c.isDigit = true := isDigit_of_mem_text (htext ▸ List.mem_cons_self)
  simp [Scan.not_isDigit_of_isNameStart hstart] at hdigit

end TemplateShape.Step
