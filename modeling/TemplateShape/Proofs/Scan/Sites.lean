import TemplateShape.Scan.Cut

/-! # Places of a text where a scanner succeeds

Cutting a text tries the scanner only behind the last match. If no match begins inside another,
this passes over no place: every one at which the scanner succeeds gives a match. -/

namespace TemplateShape.Scan

variable {α : Type}

theorem mem_findAll {scan : Placed α} {text : List Char} {a : α} :
    a ∈ findAll scan text ↔ .inr a ∈ pieces scan text := by
  unfold findAll
  rw [List.mem_filterMap]
  constructor
  · rintro ⟨piece, hpiece, h⟩
    cases piece with
    | inl c => cases h
    | inr b =>
        obtain rfl : b = a := Option.some.inj h
        exact hpiece
  · exact fun h => ⟨.inr a, h, rfl⟩

theorem exists_suffix_of_mem_piecesFrom {scan : Placed α} {taken : Nat} {previous : Option Char}
    {text : List Char} {a : α} (h : .inr a ∈ piecesFrom scan taken previous text) :
    ∃ before suffix rest, suffix <:+ text ∧ scan before suffix = some (a, rest) := by
  induction text generalizing taken previous with
  | nil =>
      cases taken <;> cases h
  | cons c text ih =>
      have hlift : (∃ before suffix rest, suffix <:+ text ∧ scan before suffix = some (a, rest)) →
          ∃ before suffix rest, suffix <:+ c :: text ∧ scan before suffix = some (a, rest) :=
        fun ⟨before, suffix, rest, hsuffix, hscan⟩ =>
          ⟨before, suffix, rest, hsuffix.trans (List.suffix_cons c text), hscan⟩
      cases taken with
      | succ taken => exact hlift (ih h)
      | zero =>
          unfold piecesFrom at h
          split at h
          · rename_i b rest hscan
            rcases List.mem_cons.mp h with h | h
            · obtain rfl : a = b := Sum.inr.inj h
              exact ⟨previous, c :: text, rest, List.suffix_rfl, hscan⟩
            · exact hlift (ih h)
          · rcases List.mem_cons.mp h with h | h
            · cases h
            · exact hlift (ih h)

theorem exists_suffix_of_mem_findAll {scan : Placed α} {text : List Char} {a : α}
    (h : a ∈ findAll scan text) :
    ∃ before suffix rest, suffix <:+ text ∧ scan before suffix = some (a, rest) :=
  exists_suffix_of_mem_piecesFrom (mem_findAll.mp h)

/-- A scanner that takes something, and never succeeds inside of what it took. -/
structure Apart (scan : Scan α) : Prop where
  shorter : ∀ {text a rest}, scan text = some (a, rest) → rest <:+ text ∧ rest ≠ text
  apart : ∀ {text a rest suffix b rest'}, scan text = some (a, rest) → suffix <:+ text →
    suffix ≠ text → scan suffix = some (b, rest') → suffix <:+ rest

theorem Apart.mem_piecesFrom {scan : Scan α} (h : Apart scan) {taken : Nat}
    {previous : Option Char} {text suffix rest : List Char} {a : α}
    (hfree : ∀ suffix b rest, suffix <:+ text → scan suffix = some (b, rest) →
      suffix <:+ text.drop taken)
    (hsuffix : suffix <:+ text) (hscan : scan suffix = some (a, rest)) :
    .inr a ∈ piecesFrom (fun _ => scan) taken previous text := by
  induction text generalizing taken previous with
  | nil =>
      obtain ⟨hrest, hne⟩ := h.shorter hscan
      rw [List.suffix_nil.mp hsuffix] at hrest hne
      exact absurd (List.suffix_nil.mp hrest) hne
  | cons c text ih =>
      cases taken with
      | succ taken =>
          have htext : suffix <:+ text :=
            (hfree suffix a rest hsuffix hscan).trans (List.drop_suffix taken text)
          refine ih ?_ htext
          intro other b rest' hother hscan'
          exact hfree other b rest' (hother.trans (List.suffix_cons c text)) hscan'
      | zero =>
          unfold piecesFrom
          split
          · rename_i b rest' hscan'
            rcases List.suffix_cons_iff.mp hsuffix with rfl | htext
            · obtain ⟨rfl, -⟩ := Prod.mk.inj (Option.some.inj (hscan.symm.trans hscan'))
              exact List.mem_cons_self
            · obtain ⟨hrest, hne⟩ := h.shorter hscan'
              have hrest' : rest' <:+ text := (List.suffix_cons_iff.mp hrest).resolve_left hne
              refine List.mem_cons_of_mem _ (ih ?_ htext)
              intro other d rest'' hother hscan''
              rw [← List.suffix_iff_eq_drop.mp hrest']
              refine h.apart hscan' (hother.trans (List.suffix_cons c text)) ?_ hscan''
              rintro rfl
              exact absurd hother.length_le (by simp)
          · rename_i hnone
            rcases List.suffix_cons_iff.mp hsuffix with rfl | htext
            · rw [hnone] at hscan
              cases hscan
            · exact List.mem_cons_of_mem _ (ih (fun _ _ _ hother _ => hother) htext)

/-- Every place at which the scanner succeeds gives a match. -/
theorem Apart.mem_findAll {scan : Scan α} (h : Apart scan) {text suffix rest : List Char} {a : α}
    (hsuffix : suffix <:+ text) (hscan : scan suffix = some (a, rest)) :
    a ∈ findAll (fun _ => scan) text :=
  Scan.mem_findAll.mpr (h.mem_piecesFrom (fun _ _ _ hother _ => hother) hsuffix hscan)

/-- What a scanner takes begins with a character that it takes nowhere else. -/
def Marked (mark : Char) (scan : Scan α) : Prop :=
  ∀ text a rest, scan text = some (a, rest) → ∃ body, text = mark :: (body ++ rest) ∧ mark ∉ body

/-- A text that begins with a mark stands behind all that has none. -/
theorem suffix_of_mark_notMem {mark : Char} {text body rest : List Char}
    (h : mark :: text <:+ body ++ rest) (hbody : mark ∉ body) : mark :: text <:+ rest := by
  rcases List.suffix_or_suffix_of_suffix h (List.suffix_append body rest) with hle | hle
  · exact hle
  · -- the text would begin inside of `body`, which has no mark
    obtain ⟨front, hfront⟩ := hle
    cases front with
    | nil => exact ⟨[], hfront.symm⟩
    | cons c front =>
        obtain ⟨rfl, -⟩ := List.cons.inj hfront
        rw [← hfront] at h
        have hsub := List.suffix_append_self_iff.mp h
        exact absurd (hsub.subset List.mem_cons_self) hbody

theorem Apart.of_marked {scan : Scan α} {mark : Char} (h : Marked mark scan) : Apart scan where
  shorter := by
    intro text a rest hscan
    obtain ⟨body, rfl, -⟩ := h text a rest hscan
    refine ⟨⟨mark :: body, by simp⟩, ?_⟩
    intro heq
    have hlength := congrArg List.length heq
    simp only [List.length_cons, List.length_append] at hlength
    omega
  apart := by
    intro text a rest suffix b rest' hscan hsuffix hne hscan'
    obtain ⟨body, rfl, hbody⟩ := h text a rest hscan
    obtain ⟨body', rfl, -⟩ := h suffix b rest' hscan'
    have htail : mark :: (body' ++ rest') <:+ body ++ rest :=
      (List.suffix_cons_iff.mp hsuffix).resolve_left hne
    exact suffix_of_mark_notMem htail hbody

end TemplateShape.Scan
