import Mathlib.Data.List.Infix
import TemplateShape.Proofs.Scan.Lookahead
import TemplateShape.Scan.Cut

/-! # Texts in which matches are replaced

What is left of a text when its matches are replaced. A stretch of one class of characters that
cannot span a replacement stands in the text itself, and every stretch of what is left when matches
are struck out is left of a stretch of the text. -/

namespace TemplateShape.Scan

variable {α : Type}

/-! ## From place to place -/

/-- A text of which the first `taken` characters belong to the last match, with every match written
as `replacement`. -/
def replaceFrom (scan : Placed α) (replacement : List Char) (taken : Nat) (previous : Option Char)
    (text : List Char) : List Char :=
  (piecesFrom scan taken previous text).flatMap fun
    | .inl c => [c]
    | .inr _ => replacement

theorem replaceAll_eq_replaceFrom (scan : Placed α) (replacement text : List Char) :
    replaceAll scan replacement text = replaceFrom scan replacement 0 none text := rfl

section Steps

variable {scan : Placed α} {replacement : List Char} {previous : Option Char} {c : Char}
  {text : List Char}

@[simp] theorem replaceFrom_nil (scan : Placed α) (replacement : List Char) (taken : Nat)
    (previous : Option Char) : replaceFrom scan replacement taken previous [] = [] := by
  cases taken <;> rfl

theorem replaceFrom_of_some {rest : List Char} {a : α}
    (h : scan previous (c :: text) = some (a, rest)) :
    replaceFrom scan replacement 0 previous (c :: text) =
      replacement ++ replaceFrom scan replacement (text.length - rest.length) (some c) text := by
  simp [replaceFrom, piecesFrom, h]

theorem replaceFrom_of_none (h : scan previous (c :: text) = none) :
    replaceFrom scan replacement 0 previous (c :: text) =
      c :: replaceFrom scan replacement 0 (some c) text := by
  simp [replaceFrom, piecesFrom, h]

end Steps

/-- Striking out matches brings in nothing. -/
theorem replaceFrom_nil_sublist (scan : Placed α) (taken : Nat) (previous : Option Char)
    (text : List Char) : (replaceFrom scan [] taken previous text).Sublist text := by
  induction text generalizing taken previous with
  | nil => simp
  | cons c text ih =>
      cases taken with
      | succ taken => exact (ih taken (some c)).cons c
      | zero =>
          cases hscan : scan previous (c :: text) with
          | some found =>
              rw [replaceFrom_of_some hscan]
              exact (ih _ (some c)).cons c
          | none =>
              rw [replaceFrom_of_none hscan]
              exact (ih 0 (some c)).cons_cons c

/-! ## Stretches of one class -/

section Stretches

variable {scan : Placed α} {replacement : List Char} {p : Char → Bool}

theorem infix_of_infix_append {front rest stretch : List Char} (hfront : ∀ c ∈ front, p c = false)
    (hstretch : ∀ c ∈ stretch, p c = true) (h : stretch <:+: front ++ rest) :
    stretch <:+: rest := by
  induction front with
  | nil => exact h
  | cons c front ih =>
      rcases List.infix_cons_iff.mp h with hbegins | hwithin
      · cases stretch with
        | nil => exact List.nil_infix
        | cons d stretch =>
            have hsame : d = c := (List.cons_prefix_cons.mp hbegins).1
            have hd := hstretch d (by simp)
            rw [hsame, hfront c (by simp)] at hd
            simp at hd
      · exact ih (fun d hd => hfront d (by simp [hd])) hwithin

/-- A replacement that holds no character of the class, or that is empty and begins behind none. -/
structure Parts (p : Char → Bool) (scan : Placed α) (replacement : List Char) : Prop where
  replaced : ∀ c ∈ replacement, p c = false
  struck : replacement = [] → ∀ c text, p c = true → scan (some c) text = none

theorem Parts.prefix_text (h : Parts p scan replacement) {stretch text : List Char}
    (hstretch : ∀ c ∈ stretch, p c = true) {before : Char} (hbefore : p before = true)
    (hbegins : stretch <+: replaceFrom scan replacement 0 (some before) text) :
    stretch <+: text := by
  induction text generalizing stretch before with
  | nil => simpa using hbegins
  | cons c text ih =>
      cases stretch with
      | nil => exact List.nil_prefix
      | cons d stretch =>
          cases hscan : scan (some before) (c :: text) with
          | none =>
              rw [replaceFrom_of_none hscan] at hbegins
              obtain ⟨hsame, htail⟩ := List.cons_prefix_cons.mp hbegins
              have hrest := ih (fun e he => hstretch e (by simp [he]))
                (hsame ▸ hstretch d (by simp)) htail
              exact List.cons_prefix_cons.mpr ⟨hsame, hrest⟩
          | some found =>
              rw [replaceFrom_of_some hscan] at hbegins
              cases hreplacement : replacement with
              | nil =>
                  rw [h.struck hreplacement before _ hbefore] at hscan
                  simp at hscan
              | cons e more =>
                  rw [hreplacement, List.cons_append] at hbegins
                  have hsame : d = e := (List.cons_prefix_cons.mp hbegins).1
                  have hclass := hstretch d (by simp)
                  rw [hsame, h.replaced e (by simp [hreplacement])] at hclass
                  simp at hclass

/-- A stretch of a class between or behind the replacements stands in the text. -/
theorem Parts.infix_replaceAll (h : Parts p scan replacement) {stretch text : List Char}
    (hstretch : ∀ c ∈ stretch, p c = true)
    (hwithin : stretch <:+: replaceAll scan replacement text) :
    stretch <:+: text := by
  have hfrom : ∀ taken previous,
      stretch <:+: replaceFrom scan replacement taken previous text → stretch <:+: text := by
    clear hwithin
    induction text with
    | nil => simp
    | cons c text ih =>
        intro taken previous hwithin
        cases taken with
        | succ taken => exact List.infix_cons (ih taken (some c) hwithin)
        | zero =>
            cases hscan : scan previous (c :: text) with
            | some found =>
                rw [replaceFrom_of_some hscan] at hwithin
                exact List.infix_cons
                  (ih _ (some c) (infix_of_infix_append h.replaced hstretch hwithin))
            | none =>
                rw [replaceFrom_of_none hscan] at hwithin
                rcases List.infix_cons_iff.mp hwithin with hbegins | hlater
                · cases stretch with
                  | nil => exact List.nil_infix
                  | cons d stretch =>
                      obtain ⟨hsame, htail⟩ := List.cons_prefix_cons.mp hbegins
                      have hrest := h.prefix_text (fun e he => hstretch e (by simp [he]))
                        (hsame ▸ hstretch d (by simp)) htail
                      exact (List.cons_prefix_cons.mpr ⟨hsame, hrest⟩).isInfix
                · exact List.infix_cons (ih 0 (some c) hlater)
  exact hfrom 0 none hwithin

end Stretches

/-! ## Scanners that do not look back -/

section Struck

variable {scan : Scan α} {replacement : List Char} {c : Char} {text : List Char}

theorem replaceFrom_fun (scan : Scan α) (replacement : List Char) (taken : Nat)
    (previous : Option Char) (text : List Char) :
    replaceFrom (fun _ => scan) replacement taken previous text =
      replaceAll (fun _ => scan) replacement (text.drop taken) := by
  induction text generalizing taken previous with
  | nil => simp [replaceAll_eq_replaceFrom]
  | cons c text ih =>
      cases taken with
      | succ taken => exact ih taken (some c)
      | zero =>
          cases hscan : scan (c :: text) with
          | some found =>
              rw [List.drop_zero, replaceAll_eq_replaceFrom, replaceFrom_of_some hscan,
                replaceFrom_of_some hscan]
          | none =>
              rw [List.drop_zero, replaceAll_eq_replaceFrom, replaceFrom_of_none hscan,
                replaceFrom_of_none hscan]

theorem replaceAll_of_none (h : scan (c :: text) = none) :
    replaceAll (fun _ => scan) replacement (c :: text) =
      c :: replaceAll (fun _ => scan) replacement text := by
  rw [replaceAll_eq_replaceFrom, replaceFrom_of_none h, replaceFrom_fun, List.drop_zero]

/-- What a match took is replaced, and the search goes on behind it. -/
theorem Closed.replaceAll_of_some (hclosed : Closed scan) {rest : List Char} {a : α}
    (h : scan text = some (a, rest)) :
    replaceAll (fun _ => scan) replacement text =
      replacement ++ replaceAll (fun _ => scan) replacement rest := by
  cases text with
  | nil =>
      obtain rfl : rest = [] := List.suffix_nil.mp (hclosed.exact.suffix h)
      exact absurd h (hclosed.moves [] a)
  | cons c text =>
      have hne : rest ≠ c :: text := by
        rintro rfl
        exact hclosed.moves _ a h
      have hrest : rest <:+ text :=
        (List.suffix_cons_iff.mp (hclosed.exact.suffix h)).resolve_left hne
      rw [replaceAll_eq_replaceFrom, replaceFrom_of_some h, replaceFrom_fun,
        ← List.suffix_iff_eq_drop.mp hrest]

theorem Closed.length_lt (hclosed : Closed scan) {rest : List Char} {a : α}
    (h : scan text = some (a, rest)) : rest.length < text.length := by
  have hsuffix := hclosed.exact.suffix h
  apply lt_of_le_of_ne hsuffix.length_le
  intro hlength
  rw [hsuffix.eq_of_length hlength] at h
  exact hclosed.moves text a h

/-- What is left in front of a place is left of a beginning of the text. -/
theorem Closed.exists_beginning (hclosed : Closed scan) {kept : List Char}
    (h : kept <+: replaceAll (fun _ => scan) [] text) :
    ∃ piece, piece <+: text ∧ replaceAll (fun _ => scan) [] piece = kept := by
  induction hlength : text.length using Nat.strong_induction_on generalizing text kept with
  | _ n ih =>
      subst hlength
      cases kept with
      | nil => exact ⟨[], List.nil_prefix, rfl⟩
      | cons d kept =>
          cases text with
          | nil => simp [replaceAll_eq_replaceFrom] at h
          | cons c text =>
              cases hscan : scan (c :: text) with
              | some found =>
                  obtain ⟨a, rest⟩ := found
                  rw [hclosed.replaceAll_of_some hscan, List.nil_append] at h
                  obtain ⟨piece, hpiece, hkept⟩ := ih _ (hclosed.length_lt hscan) h rfl
                  obtain ⟨taken, htext, htaken⟩ := hclosed.exact _ _ _ hscan
                  refine ⟨taken ++ piece, ?_, ?_⟩
                  · rw [htext]
                    exact (List.prefix_append_right_inj taken).mpr hpiece
                  · rw [hclosed.replaceAll_of_some (htaken piece trivial), List.nil_append, hkept]
              | none =>
                  rw [replaceAll_of_none hscan] at h
                  obtain ⟨hsame, htail⟩ := List.cons_prefix_cons.mp h
                  obtain ⟨piece, hpiece, hkept⟩ := ih text.length (by simp) htail rfl
                  refine ⟨c :: piece, List.cons_prefix_cons.mpr ⟨rfl, hpiece⟩, ?_⟩
                  have hnone : scan (c :: piece) = none := by
                    cases hearly : scan (c :: piece) with
                    | none => rfl
                    | some found =>
                        obtain ⟨more, rfl⟩ := hpiece
                        have hlater := hclosed.append hearly more
                        rw [List.cons_append, hscan] at hlater
                        simp at hlater
                  rw [replaceAll_of_none hnone, hkept, hsame]

/-- Every stretch of what is left is left of a stretch of the text. -/
theorem Closed.exists_stretch (hclosed : Closed scan) {kept : List Char}
    (h : kept <:+: replaceAll (fun _ => scan) [] text) :
    ∃ piece, piece <:+: text ∧ replaceAll (fun _ => scan) [] piece = kept := by
  induction hlength : text.length using Nat.strong_induction_on generalizing text with
  | _ n ih =>
      subst hlength
      cases text with
      | nil =>
          have hnil : kept = [] := by simpa [replaceAll_eq_replaceFrom] using h
          exact ⟨[], List.nil_infix, hnil.symm⟩
      | cons c text =>
          cases hscan : scan (c :: text) with
          | some found =>
              obtain ⟨a, rest⟩ := found
              rw [hclosed.replaceAll_of_some hscan, List.nil_append] at h
              obtain ⟨piece, hpiece, hkept⟩ := ih _ (hclosed.length_lt hscan) h rfl
              exact ⟨piece, hpiece.trans (hclosed.exact.suffix hscan).isInfix, hkept⟩
          | none =>
              rw [replaceAll_of_none hscan] at h
              rcases List.infix_cons_iff.mp h with hbegins | hwithin
              · rw [← replaceAll_of_none hscan] at hbegins
                obtain ⟨piece, hpiece, hkept⟩ := hclosed.exists_beginning hbegins
                exact ⟨piece, hpiece.isInfix, hkept⟩
              · obtain ⟨piece, hpiece, hkept⟩ := ih text.length (by simp) hwithin rfl
                exact ⟨piece, List.infix_cons hpiece, hkept⟩

end Struck

end TemplateShape.Scan
