import TemplateShape.Proofs.Shape.Tidy
import TemplateShape.Proofs.Template.Names

/-! # No key stands twice in an outline

Every edit writes shapes whose keys are distinct, so the outline as a whole is a tidy object. -/

namespace TemplateShape

/-! ## Rows -/

namespace Shape

theorem tidy_sampleObject (entries : List (String × String)) :
    (Finding.sampleObject entries).Tidy := by
  apply tidy_object (Fields.distinct_ofList _)
  intro field hfield
  have hfind := (Fields.distinct_ofList _).find?_eq_some_iff.mpr hfield
  obtain ⟨entry, -, heq⟩ := List.mem_map.mp (Fields.mem_of_find?_ofList hfind)
  have hvalue : Shape.text entry.2 = field.2 := congrArg Prod.snd heq
  exact hvalue ▸ .of_isPlain rfl

theorem tidy_sampleItems {fields : List String} (h : fields.Nodup) :
    (Finding.sampleItems fields).Tidy := by
  have hitem : (object (fields.map fun field => (field, printed))).Tidy := by
    apply tidy_object
    · simpa [Fields.Distinct, Fields.names, Function.comp_def] using h
    · intro field hfield
      obtain ⟨name, -, heq⟩ := List.mem_map.mp hfield
      have hvalue : printed = field.2 := congrArg Prod.snd heq
      exact hvalue ▸ .of_isPlain isPlain_printed
  apply tidy_array
  simpa using hitem

def RowTidy (row : Option Shape) : Prop :=
  ∀ shape, row = some shape → shape.Tidy

theorem rowTidy_some {shape : Shape} (h : shape.Tidy) : RowTidy (some shape) := by
  intro other heq
  exact Option.some.inj heq ▸ h

end Shape

open Shape

def Edit.IsTidy : Edit → Prop
  | .learn _ _ shape | .assume _ _ shape => shape.Tidy
  | .write _ leaf => leaf.Tidy
  | .remark _ => True

theorem Outline.tidy_learned {policy : Policy} {shape : Shape} {row : Option Shape}
    (h : shape.Tidy) (hrow : RowTidy row) : (learned policy shape row).Tidy := by
  cases row with
  | none => exact h
  | some existing =>
      rw [learned]
      split
      · exact h
      · exact hrow existing rfl

theorem Edit.IsTidy.onRow {edit : Edit} (h : edit.IsTidy) {row : Option Shape}
    (hrow : RowTidy row) : RowTidy (edit.onRow row) := by
  cases edit with
  | learn policy name shape => exact rowTidy_some (Outline.tidy_learned h hrow)
  | assume policy name shape => exact rowTidy_some (Outline.tidy_learned h hrow)
  | write path leaf =>
      apply rowTidy_some
      apply Tidy.put _ h
      cases row with
      | none => exact tidy_freshPlace path.tail
      | some shape => exact hrow shape rfl
  | remark notice => exact hrow

namespace Finding

def IsTidy : Finding → Prop
  | .itemsPrinted _ fields => fields.Nodup
  | _ => True

theorem isTidy_writeAt {leaf : Shape} (h : leaf.Tidy) (path : NamePath) (further : List Step) :
    (writeAt path further leaf).IsTidy := by
  unfold writeAt
  split
  · exact h
  · trivial

theorem isTidy_of_mem_editsOfPath {policy : Policy} {path : NamePath} {leaf : Shape} {edit : Edit}
    (hleaf : leaf.Tidy) (h : edit ∈ editsOfPath policy path leaf) : edit.IsTidy := by
  unfold editsOfPath at h
  split at h
  · rw [List.mem_singleton.mp h]
    exact hleaf
  · rcases List.mem_cons.mp h with rfl | h
    · exact tidy_object_nil
    · rw [List.mem_singleton.mp h]
      exact isTidy_writeAt hleaf path []

theorem IsTidy.of_mem_edits {settings : Settings} {finding : Finding} {edit : Edit}
    (hfinding : finding.IsTidy) (h : edit ∈ finding.edits settings) : edit.IsTidy := by
  have hprinted : Shape.printed.Tidy := .of_isPlain isPlain_printed
  cases finding with
  | assigned path => exact isTidy_of_mem_editsOfPath hprinted h
  | printed path => exact isTidy_of_mem_editsOfPath hprinted h
  | looped list =>
      rw [List.mem_singleton.mp h]
      exact tidy_array (by simpa using hprinted)
  | entriesLooped mapping =>
      rw [List.mem_singleton.mp h]
      exact tidy_sampleObject settings.entrySample
  | tested path =>
      simp only [edits] at h
      split at h
      · rw [List.mem_singleton.mp h]
        exact .of_isPlain isPlain_tested
      · exact isTidy_of_mem_editsOfPath (.of_isPlain isPlain_tested) h
  | indexed path =>
      simp only [edits, List.mem_cons, List.not_mem_nil, or_false] at h
      rcases h with rfl | rfl
      · change (if path.base.isBare then Shape.array [] else .object []).Tidy
        split
        · exact tidy_array (by simp)
        · exact tidy_object_nil
      · split
        · exact isTidy_writeAt hprinted path.base _
        · trivial
  | itemsPrinted list fields =>
      simp only [edits] at h
      split at h
      · simp at h
      · simp only [List.mem_cons, List.not_mem_nil, or_false] at h
        rcases h with rfl | rfl
        · trivial
        · exact tidy_sampleItems hfinding

theorem IsTidy.onRow {finding : Finding} (h : finding.IsTidy) (settings : Settings)
    {row : Option Shape} (hrow : RowTidy row) : RowTidy (finding.onRow settings row) :=
  List.foldlRecOn (finding.edits settings) Edit.onRow hrow fun _ hafter _ hedit =>
    (h.of_mem_edits hedit).onRow hafter

theorem rowTidy_foldl_onRow (settings : Settings) {findings : List Finding}
    (h : ∀ finding ∈ findings, finding.IsTidy) {row : Option Shape} (hrow : RowTidy row) :
    RowTidy (findings.foldl (onRow settings) row) :=
  List.foldlRecOn findings (onRow settings) hrow fun _ hafter finding hmem =>
    (h finding hmem).onRow settings hafter

end Finding

/-! ## Outlines -/

theorem Pass.isTidy_of_mem_uses {pass : Pass} {template : List Char} {use : Finding}
    (h : use ∈ pass.uses template) : use.IsTidy := by
  cases hitems : use.isItems with
  | false =>
      cases use with
      | itemsPrinted list fields => simp [Finding.isItems] at hitems
      | _ => trivial
  | true =>
      by_cases hpass : pass = .loopItems
      · subst hpass
        obtain ⟨loop, -, rfl⟩ := List.mem_map.mp h
        exact nodup_eraseDups _
      · simp [Pass.isItems_of_mem_uses hpass h] at hitems

theorem Outline.tidy_find?_ofTemplate {settings : Settings} {template name : String} {shape : Shape}
    (h : (ofTemplate settings template).find? name = some shape) : shape.Tidy := by
  rw [find?_ofTemplate] at h
  split at h
  · simp at h
  · have hnone : RowTidy none := by
      intro shape heq
      simp at heq
    refine Finding.rowTidy_foldl_onRow settings ?_ hnone shape h
    intro use huse
    obtain ⟨pass, -, hmem⟩ := List.mem_flatMap.mp (List.mem_filter.mp huse).1
    exact Pass.isTidy_of_mem_uses hmem

theorem Outline.distinct_ofTemplate (settings : Settings) (template : String) :
    Fields.Distinct (ofTemplate settings template).entries := by
  have hnames : (ofTemplate settings template).names =
      (Template.roots settings (Pass.all.take 7) template.toList).eraseDups :=
    (names_ofTemplate settings template).trans
      (Draft.lists_ofTemplate settings template.toList 7).names_eq
  have hnodup : (ofTemplate settings template).names.Nodup := hnames ▸ nodup_eraseDups _
  exact hnodup

/-- In the outline of a template no key stands twice, neither among the variables nor in any object
below them. -/
theorem Outline.tidy_ofTemplate (settings : Settings) (template : String) :
    (Shape.object (ofTemplate settings template).entries).Tidy := by
  have hdistinct := distinct_ofTemplate settings template
  apply tidy_object hdistinct
  intro field hfield
  exact tidy_find?_ofTemplate (hdistinct.find?_eq_some_iff.mpr hfield)

end TemplateShape
