import Mathlib.Data.List.Basic

/-! # Lists that grow up to an index

A write at an index fills a list up until it has an item there. -/

namespace TemplateShape

variable {α : Type}

theorem rightpad_of_le {items : List α} {n : Nat} (h : n ≤ items.length) (filler : α) :
    items.rightpad n filler = items := by
  rw [List.rightpad, Nat.sub_eq_zero_of_le h, List.replicate_zero, List.append_nil]

/-- Reading after writing: fillers stand between the old items and the written one. -/
theorem getElem?_rightpad_modify (items : List α) (i j : Nat) (filler : α) (f : α → α) :
    ((items.rightpad (i + 1) filler).modify i f)[j]? =
      if j = i then some (f (items[i]?.getD filler))
      else if j < items.length then items[j]?
      else if j < i then some filler else none := by
  rw [List.getElem?_modify, List.rightpad, List.getElem?_append, List.getElem?_replicate]
  by_cases hij : j = i
  · subst hij
    by_cases hlt : j < items.length
    · simp [hlt]
    · have hsub : j - items.length < j + 1 - items.length := by omega
      simp [hlt, hsub]
  · have hji : ¬ i = j := fun e => hij e.symm
    by_cases hlt : j < items.length
    · simp [hij, hji, hlt]
    · have hsub : j - items.length < i + 1 - items.length ↔ j < i := by omega
      simp [hij, hji, hlt, hsub]

@[simp] theorem length_rightpad_modify (items : List α) (i : Nat) (filler : α) (f : α → α) :
    ((items.rightpad (i + 1) filler).modify i f).length = max items.length (i + 1) := by
  simp only [List.rightpad, List.length_modify, List.length_append, List.length_replicate]
  omega

/-- What is new besides the written item is filler. -/
theorem getElem?_rightpad_modify_of_le {items : List α} {i j : Nat} {filler : α} {f : α → α}
    (hlow : items.length ≤ j) (hhigh : j < ((items.rightpad (i + 1) filler).modify i f).length)
    (hne : j ≠ i) : ((items.rightpad (i + 1) filler).modify i f)[j]? = some filler := by
  rw [length_rightpad_modify] at hhigh
  have hlt : j < i := by omega
  rw [getElem?_rightpad_modify, if_neg hne, if_neg (Nat.not_lt.mpr hlow), if_pos hlt]

theorem forall_mem_rightpad_modify {p : α → Prop} {items : List α} (h : ∀ item ∈ items, p item)
    {filler : α} (hfiller : p filler) {f : α → α} (hf : ∀ item, p item → p (f item)) (i : Nat) :
    ∀ item ∈ (items.rightpad (i + 1) filler).modify i f, p item := by
  intro item hitem
  obtain ⟨j, hj⟩ := List.mem_iff_getElem?.mp hitem
  rw [getElem?_rightpad_modify] at hj
  split at hj
  · rw [← Option.some.inj hj]
    cases hold : items[i]? with
    | none => exact hf filler hfiller
    | some old => exact hf old (h old (List.mem_of_getElem? hold))
  · split at hj
    · exact h item (List.mem_of_getElem? hj)
    · split at hj
      · exact Option.some.inj hj ▸ hfiller
      · cases hj

theorem rightpad_modify_eq_self {items : List α} {i : Nat} {item : α} {f : α → α}
    (h : items[i]? = some item) (hf : f item = item) (filler : α) :
    (items.rightpad (i + 1) filler).modify i f = items := by
  have hlt : i < items.length := (List.getElem?_eq_some_iff.mp h).1
  rw [rightpad_of_le hlt]
  apply List.ext_getElem?
  intro j
  rw [List.getElem?_modify]
  by_cases hij : i = j
  · subst hij
    simp [h, hf]
  · simp [hij]

theorem rightpad_modify_rightpad_modify (items : List α) (i : Nat) (filler other : α)
    (f g : α → α) :
    (((items.rightpad (i + 1) filler).modify i f).rightpad (i + 1) other).modify i g =
      (items.rightpad (i + 1) filler).modify i fun item => g (f item) := by
  have hlength : i + 1 ≤ ((items.rightpad (i + 1) filler).modify i f).length := by
    rw [length_rightpad_modify]
    omega
  rw [rightpad_of_le hlength, List.modify_modify_eq]
  rfl

end TemplateShape
