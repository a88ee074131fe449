import TemplateShape.Proofs.Template.Names

/-! # Reserved names

A row of an outline is the work of the uses of its own variable. So reserving further names takes
the rows of these names out of the outline of a template and leaves all others as they are. -/

namespace TemplateShape

def Ascii.isOneOf (words : List String) (name : String) : Bool :=
  words.any fun word => lower word == lower name

/-! ## Settings -/

namespace Settings

theorem ignores_reserve (settings : Settings) (word name : String) :
    (settings.reserve word).ignores name =
      (settings.ignores name || Ascii.lower word == Ascii.lower name) := by
  simp only [reserve]
  split
  · rename_i hknown
    by_cases hsame : Ascii.lower word = Ascii.lower name
    · have hignores : settings.ignores name = true := by
        rw [ignores, ← hsame, hknown, Bool.or_true]
      rw [hignores, Bool.true_or]
    · have hne : (Ascii.lower word == Ascii.lower name) = false := by simpa using hsame
      rw [hne, Bool.or_false]
  · have hone : [Ascii.lower word].contains (Ascii.lower name) =
        (Ascii.lower word == Ascii.lower name) := by
      rw [List.contains_cons, List.contains_nil, Bool.or_false, BEq.comm]
    rw [ignores, List.contains_append, hone, ignores, Bool.or_assoc]

theorem ignores_reserveAll (settings : Settings) (names : List String) (name : String) :
    (settings.reserveAll names).ignores name =
      (settings.ignores name || Ascii.isOneOf names name) := by
  induction names generalizing settings with
  | nil => simp [reserveAll, Ascii.isOneOf]
  | cons word rest ih =>
      have hrest := ih (settings.reserve word)
      rw [ignores_reserve] at hrest
      rw [Ascii.isOneOf, List.any_cons, ← Bool.or_assoc]
      exact hrest

theorem samples_reserve (settings : Settings) (word : String) :
    (settings.reserve word).entrySample = settings.entrySample ∧
      (settings.reserve word).indexLimit = settings.indexLimit := by
  simp only [reserve]
  split <;> exact ⟨rfl, rfl⟩

theorem samples_reserveAll (settings : Settings) (names : List String) :
    (settings.reserveAll names).entrySample = settings.entrySample ∧
      (settings.reserveAll names).indexLimit = settings.indexLimit := by
  induction names generalizing settings with
  | nil => exact ⟨rfl, rfl⟩
  | cons word rest ih =>
      have hfirst := samples_reserve settings word
      have hrest := ih (settings.reserve word)
      exact ⟨hrest.1.trans hfirst.1, hrest.2.trans hfirst.2⟩

end Settings

theorem Finding.edits_reserveAll (settings : Settings) (names : List String) (finding : Finding) :
    finding.edits (settings.reserveAll names) = finding.edits settings := by
  have hsamples := settings.samples_reserveAll names
  cases finding with
  | entriesLooped mapping => rw [edits, edits, hsamples.1]
  | indexed path => rw [edits, edits, hsamples.2]
  | _ => rfl

/-! ## What a condition reads -/

namespace Condition

/-- Leaving out roots while a text is read is the same as leaving them out afterwards: the arguments
of a call are read whatever its name is. -/
theorem readsWithin_eq_filter (excluded : String → Bool) (depth : Nat) (text : List Char) :
    readsWithin excluded depth text =
      (readsWithin (fun _ => false) depth text).filter fun path => !excluded path.root := by
  induction depth generalizing text with
  | zero => rfl
  | succ depth ih =>
      simp only [readsWithin, List.filter_append, List.filter_flatMap, Bool.not_false,
        List.filter_true]
      congr 2
      funext found
      congr 1
      · cases hexcluded : excluded found.name <;> simp [hexcluded, NamePath.bare]
      · split
        · rfl
        · exact ih found.arguments

theorem reads_eq_filter (excluded : String → Bool) (text : List Char) :
    reads excluded text =
      (reads (fun _ => false) text).filter fun path => !excluded path.root :=
  readsWithin_eq_filter excluded _ text

end Condition

/-! ## Rows that are kept -/

def Outline.only (outline : Outline) (keep : String → Bool) : Outline where
  entries := outline.entries.filter fun (name, _) => keep name

variable (keep : String → Bool)

namespace Edit

/-- An edit of a row that is kept can wait until the other rows are gone, and an edit of any other
row is lost with it. -/
theorem only_apply {edit : Edit} {target : String} (h : edit.Concerns target) (outline : Outline) :
    (edit.apply outline).only keep =
      if keep target then edit.apply (outline.only keep) else outline.only keep := by
  have halter : ∀ (fresh : Shape) (f : Shape → Shape),
      (⟨Fields.alter target fresh f outline.entries⟩ : Outline).only keep =
        if keep target then ⟨Fields.alter target fresh f (outline.only keep).entries⟩
        else outline.only keep := by
    intro fresh f
    rw [Outline.only, Fields.filter_alter]
    split <;> rfl
  cases edit with
  | learn policy name shape =>
      obtain rfl : name = target := h
      exact halter _ _
  | assume policy name shape =>
      obtain rfl : name = target := h
      exact halter _ _
  | write path leaf =>
      obtain ⟨rest, rfl⟩ := h
      exact halter _ _
  | remark notice => exact (ite_self _).symm

theorem only_foldl_apply {edits : List Edit} {target : String}
    (h : ∀ edit ∈ edits, edit.Concerns target) (outline : Outline) :
    (edits.foldl apply outline).only keep =
      if keep target then edits.foldl apply (outline.only keep) else outline.only keep := by
  induction edits generalizing outline with
  | nil => exact (ite_self _).symm
  | cons edit rest ih =>
      rw [List.foldl_cons, ih (fun e he => h e (by simp [he])), only_apply keep (h edit (by simp))]
      split <;> rfl

end Edit

namespace Draft

variable {settings : Settings} {names : List String}

theorem outline_add (settings : Settings) (draft : Draft) (finding : Finding) :
    (draft.add settings finding).outline =
      (finding.edits settings).foldl Edit.apply draft.outline := by
  simp [add]

theorem only_foldl_add (findings : List Finding) {draft draft' : Draft}
    (h : draft'.outline = draft.outline.only keep) :
    ((findings.filter fun finding => keep finding.root).foldl
        (add (settings.reserveAll names)) draft').outline =
      (findings.foldl (add settings) draft).outline.only keep := by
  induction findings generalizing draft draft' with
  | nil => exact h
  | cons finding rest ih =>
      have hconcerns : ∀ edit ∈ finding.edits settings, edit.Concerns finding.root :=
        fun _ => Finding.concerns_root
      have hadd : (draft.add settings finding).outline.only keep =
          if keep finding.root then (finding.edits settings).foldl Edit.apply draft'.outline
          else draft'.outline := by
        rw [outline_add, Edit.only_foldl_apply keep hconcerns, h]
      rw [List.filter_cons, List.foldl_cons]
      cases hkeep : keep finding.root with
      | true =>
          rw [if_pos rfl, List.foldl_cons]
          apply ih
          rw [hadd, outline_add, Finding.edits_reserveAll, hkeep, if_pos rfl]
      | false =>
          rw [if_neg Bool.false_ne_true]
          apply ih
          rw [hadd, hkeep, if_neg Bool.false_ne_true]

end Draft

/-! ## Outlines -/

theorem Pass.findings_reserveAll (settings : Settings) (names : List String)
    (template : List Char) (pass : Pass) :
    pass.findings (settings.reserveAll names) template =
      (pass.findings settings template).filter fun finding =>
        !Ascii.isOneOf names finding.root := by
  rw [findings, findings, List.filter_filter]
  apply List.filter_congr
  intro finding _
  rw [Settings.ignores_reserveAll, Bool.not_or, Bool.and_comm]

namespace Template

/-- Reserving further names takes away the rows of the variables that have one of these names, in
whatever case, and nothing else: all other rows keep their shapes and their order. In the same way a
condition is said to read what it was said to read before, but for the paths that begin with one of
these names. -/
theorem reserving_only_deletes (settings : Settings) (names : List String) :
    (∀ template : String, Outline.ofTemplate (settings.reserveAll names) template =
      (Outline.ofTemplate settings template).only fun name => !Ascii.isOneOf names name) ∧
    ∀ expression : List Char,
      Condition.reads (settings.reserveAll names).ignores expression =
        (Condition.reads settings.ignores expression).filter fun path =>
          !Ascii.isOneOf names path.root := by
  constructor
  · intro template
    have hfindings : Pass.all.flatMap
        (Pass.findings (settings.reserveAll names) template.toList) =
        (Pass.all.flatMap (Pass.findings settings template.toList)).filter fun finding =>
          !Ascii.isOneOf names finding.root := by
      rw [List.filter_flatMap]
      exact congrArg (Pass.all.flatMap ·)
        (funext (Pass.findings_reserveAll settings names template.toList))
    rw [Outline.ofTemplate, (Draft.settled_ofTemplate _ _ _).close_eq, Outline.ofTemplate,
      (Draft.settled_ofTemplate _ _ _).close_eq, Draft.ofTemplate_eq_foldl_add,
      Draft.ofTemplate_eq_foldl_add, hfindings]
    exact Draft.only_foldl_add (fun name => !Ascii.isOneOf names name) _ rfl
  · intro expression
    rw [Condition.reads_eq_filter, Condition.reads_eq_filter settings.ignores, List.filter_filter]
    apply List.filter_congr
    intro path _
    rw [Settings.ignores_reserveAll, Bool.not_or, Bool.and_comm]

/-- The argument of a call is read although the called name is reserved. -/
example : (Outline.ofTemplate (({} : Settings).reserveAll ["Url_For"])
    "{% if url_for(page) %}").names = ["page"] := by
  decide +kernel

end Template

end TemplateShape
