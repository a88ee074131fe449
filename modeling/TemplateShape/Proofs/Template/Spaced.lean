import TemplateShape.Proofs.Template.Plain

/-! # Text between plain tags

No tag begins in a text without an opening brace, whatever stands behind it. So the passes see the
same uses in plain tags with such text around them as in the tags alone. -/

namespace TemplateShape.PlainTag

open Scan

/-- A character that no tag begins with. -/
abbrev Filler := { c : Char // c ≠ '{' }

def pieceText : Filler ⊕ PlainTag → List Char
  | .inl c => [c.val]
  | .inr tag => tag.text

/-- A text that consists of tags and of characters around them. -/
def IsSpaced (tags : List PlainTag) (template : List Char) : Prop :=
  ∃ pieces : List (Filler ⊕ PlainTag),
    pieces.flatMap pieceText = template ∧ pieces.filterMap Sum.getRight? = tags

variable {tags : List PlainTag} {template : List Char}

theorem isSpaced_nil : IsSpaced [] [] :=
  ⟨[], rfl, rfl⟩

theorem IsSpaced.tag (h : IsSpaced tags template) (tag : PlainTag) :
    IsSpaced (tag :: tags) (tag.text ++ template) := by
  rcases h with ⟨pieces, htext, htags⟩
  refine ⟨.inr tag :: pieces, ?_, by simp [htags]⟩
  rw [List.flatMap_cons, htext]
  rfl

theorem IsSpaced.gap (h : IsSpaced tags template) {gap : List Char} (hgap : '{' ∉ gap) :
    IsSpaced tags (gap ++ template) := by
  induction gap with
  | nil => exact h
  | cons c gap ih =>
      have hc : c ≠ '{' := fun heq => hgap (by simp [heq])
      rcases ih (fun hmem => hgap (List.mem_cons_of_mem c hmem)) with ⟨pieces, htext, htags⟩
      refine ⟨.inl ⟨c, hc⟩ :: pieces, ?_, (List.filterMap_cons_none rfl).trans htags⟩
      rw [List.flatMap_cons, htext]
      rfl

theorem Opens.eq_none_filler {α : Type} {scan : Scan α} (h : Opens scan) (c : Filler)
    (rest : List Char) : scan (c.val :: rest) = none := by
  cases hscan : scan (c.val :: rest) with
  | none => rfl
  | some found =>
      rcases h _ found.1 found.2 hscan with ⟨second, behind, hopen, -⟩
      exact absurd (List.cons.inj hopen).1 c.property

/-- In spaced tags a scanner finds what it finds in the tags alone. -/
theorem IsSpaced.matchesOf_eq (h : IsSpaced tags template) {α : Type} {scan : Scan α}
    {value : PlainTag → Option α} (hopens : Opens scan)
    (hvalue : ∀ tag rest, scan (text tag ++ rest) = (value tag).map fun a => (a, rest)) :
    Pass.matchesOf scan template = Pass.matchesOf scan (tags.flatMap text) := by
  rcases h with ⟨pieces, htext, htags⟩
  have hne : ∀ piece, pieceText piece ≠ [] := by
    intro piece
    cases piece with
    | inl c => simp [pieceText]
    | inr tag => exact text_ne_nil tag
  have hfront : ∀ piece rest, scan (pieceText piece ++ rest) =
      (piece.getRight?.bind value).map fun a => (a, rest) := by
    intro piece rest
    cases piece with
    | inl c => exact hopens.eq_none_filler c rest
    | inr tag => exact hvalue tag rest
  have hinside : ∀ piece rest before c after, pieceText piece = before ++ c :: after →
      before ≠ [] → scan (c :: after ++ rest) = none := by
    intro piece rest before c after hpiece hbefore
    cases piece with
    | inl filler =>
        -- a single character has no inside
        have hlength := congrArg List.length hpiece
        have hpos := List.length_pos_iff.mpr hbefore
        simp only [pieceText, List.length_append, List.length_cons, List.length_nil] at hlength
        omega
    | inr tag => exact hopens.eq_none_inside rest tag before c after hpiece hbefore
  have hpieces : Pass.matchesOf scan (pieces.flatMap pieceText) =
      pieces.filterMap fun piece => piece.getRight?.bind value :=
    findAll_flatMap hne hfront hinside pieces
  rw [← htext, hpieces, findAll_template hopens hvalue, ← htags, List.filterMap_filterMap]

theorem IsSpaced.uses_eq (h : IsSpaced tags template) (pass : Pass) :
    Pass.uses template pass = Pass.uses (tags.flatMap text) pass := by
  cases pass with
  | assignment =>
      have hopens : Opens Tag.assignment := opens_blockStart "set" _
      rw [Pass.uses, Pass.uses, h.matchesOf_eq hopens fun tag rest => assignment_eq rest tag]
  | output =>
      have hopens : Opens Tag.output := opens_outputOpen _
      rw [Pass.uses, Pass.uses, h.matchesOf_eq hopens fun tag rest => output_eq rest tag]
  | loop =>
      have hopens : Opens Tag.loopHeader := opens_blockStart "for" _
      rw [Pass.uses, Pass.uses, h.matchesOf_eq hopens fun tag rest => loopHeader_eq rest tag]
  | entriesLoop =>
      have hopens : Opens Tag.entriesHeader := opens_blockStart "for" _
      rw [Pass.uses, Pass.uses, h.matchesOf_eq hopens fun tag rest => entriesHeader_eq rest tag]
  | condition =>
      have hopens : Opens Tag.condition := opens_blockOpen _
      rw [Pass.uses, Pass.uses, h.matchesOf_eq hopens fun tag rest => condition_eq rest tag]
  | itemAccess =>
      have hopens : Opens Tag.indexedOutput := opens_outputOpen _
      have hnone : ∀ tag rest, Tag.indexedOutput (text tag ++ rest) =
          (none : Option Tag.IndexedPath).map fun path => (path, rest) :=
        fun tag rest => indexedOutput_eq_none rest tag
      rw [Pass.uses, Pass.uses, h.matchesOf_eq hopens hnone]
  | loopItems =>
      have hopens : Opens Tag.loopClose := opens_blockOpen _
      have hnone : ∀ tag rest, Tag.loopClose (text tag ++ rest) =
          (none : Option Unit).map fun u => (u, rest) :=
        fun tag rest => loopClose_eq_none rest tag
      have hclose := h.matchesOf_eq hopens hnone
      rw [matchesOf_loopClose] at hclose
      rw [Pass.uses, Pass.uses, Pass.matchesOf_loop_eq_nil hclose,
        Pass.matchesOf_loop_eq_nil (matchesOf_loopClose tags)]

end TemplateShape.PlainTag
