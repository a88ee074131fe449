import TemplateShape.Proofs.Template.Tidy

/-! # Bounds of outlines

Paths with too many names are not written and arrays are not filled up beyond the limit. So the
shapes of a template are nested at most as deep as a path has names, its arrays are no longer than
the limit allows, and their keys and plain values come from a few sources. One write keeps all of
this, and so does a whole reading. -/

namespace TemplateShape

open Shape

/-! ## Bounded shapes -/

namespace Settings

variable (settings : Settings)

/-- The keys of objects: names, the decimal texts of indices up to the limit, and the keys of the
sample. -/
def AdmitsKey (key : String) : Prop :=
  Tag.IsName key ∨ (∃ i ≤ settings.indexLimit, key = (Step.index i).text) ∨
    key ∈ settings.entrySample.map Prod.fst

def AdmitsStep : Step → Prop
  | .key name => Tag.IsName name
  | .index i => i ≤ settings.indexLimit

theorem AdmitsStep.admitsKey {settings : Settings} {step : Step} (h : settings.AdmitsStep step) :
    settings.AdmitsKey step.text := by
  cases step with
  | key name => exact .inl h
  | index i => exact .inr (.inl ⟨i, h, rfl⟩)

end Settings

/-- A shape whose containers are nested at most so deep. Its keys are admitted, its arrays are no
longer than a sample of items or an array that is filled up to the limit, and its plain values are
`""`, true or values of the sample. -/
inductive Shape.Bounded (settings : Settings) : (depth : Nat) → Shape → Prop
  | object {depth : Nat} {fields : Fields Shape}
      (hkeys : ∀ field ∈ fields, settings.AdmitsKey field.1)
      (hfields : ∀ field ∈ fields, Bounded settings depth field.2) :
      Bounded settings (depth + 1) (.object fields)
  | array {depth : Nat} {items : List Shape}
      (hlength : items.length ≤ max 2 (settings.indexLimit + 1))
      (hitems : ∀ item ∈ items, Bounded settings depth item) :
      Bounded settings (depth + 1) (.array items)
  | text {depth : Nat} {value : String}
      (hvalue : value = "" ∨ value ∈ settings.entrySample.map Prod.snd) :
      Bounded settings depth (.text value)
  | flag {depth : Nat} : Bounded settings depth (.flag true)

namespace Shape

variable {settings : Settings} {depth : Nat} {shape leaf : Shape}

theorem bounded_printed : Bounded settings depth printed :=
  .text (.inl rfl)

theorem bounded_object_nil : Bounded settings (depth + 1) (.object []) :=
  .object (by simp) (by simp)

theorem bounded_array_nil : Bounded settings (depth + 1) (.array []) :=
  .array (by simp) (by simp)

/-! ## Writes -/

theorem bounded_freshPlace {rest : List Step} (h : rest.length ≤ depth) :
    Bounded settings depth (freshPlace rest) := by
  cases rest with
  | nil => exact bounded_printed
  | cons step rest =>
      cases depth with
      | zero => simp at h
      | succ depth =>
          cases step with
          | key name => exact bounded_object_nil
          | index i => exact bounded_array_nil

theorem Bounded.fields (h : Bounded settings (depth + 1) shape) :
    ∀ field ∈ shape.fields?.getD [],
      settings.AdmitsKey field.1 ∧ Bounded settings depth field.2 := by
  cases h with
  | object hkeys hfields => exact fun field hfield => ⟨hkeys field hfield, hfields field hfield⟩
  | _ => simp [fields?]

theorem Bounded.items (h : Bounded settings (depth + 1) shape) :
    (shape.items?.getD []).length ≤ max 2 (settings.indexLimit + 1) ∧
      ∀ item ∈ shape.items?.getD [], Bounded settings depth item := by
  cases h with
  | array hlength hitems => exact ⟨hlength, hitems⟩
  | _ => simp [items?]

theorem Bounded.alter {fields : Fields Shape} {name : String} {fresh : Shape} {f : Shape → Shape}
    (h : ∀ field ∈ fields, settings.AdmitsKey field.1 ∧ Bounded settings depth field.2)
    (hname : settings.AdmitsKey name) (hfresh : Bounded settings depth fresh)
    (hf : ∀ part, Bounded settings depth part → Bounded settings depth (f part)) :
    Bounded settings (depth + 1) (.object (Fields.alter name fresh f fields)) := by
  have hfields : ∀ field ∈ Fields.alter name fresh f fields,
      settings.AdmitsKey field.1 ∧ Bounded settings depth field.2 := by
    intro field hfield
    rcases Fields.mem_alter hfield with hold | ⟨hkey, hvalue⟩
    · exact h field hold
    · refine ⟨hkey ▸ hname, ?_⟩
      rcases hvalue with hnew | ⟨old, hold, hchanged⟩
      · exact hnew ▸ hf fresh hfresh
      · exact hchanged ▸ hf old (h _ hold).2
  exact .object (fun field hfield => (hfields field hfield).1)
    fun field hfield => (hfields field hfield).2

theorem Bounded.pad {items : List Shape} {i : Nat} {f : Shape → Shape}
    (hlength : items.length ≤ max 2 (settings.indexLimit + 1))
    (h : ∀ item ∈ items, Bounded settings depth item) (hi : i ≤ settings.indexLimit)
    (hf : ∀ part, Bounded settings depth part → Bounded settings depth (f part)) :
    Bounded settings (depth + 1) (.array ((items.rightpad (i + 1) printed).modify i f)) := by
  apply Bounded.array
  · rw [length_rightpad_modify]
    omega
  · exact forall_mem_rightpad_modify h bounded_printed hf i

/-- A write along admitted steps keeps the bounds if there is room for every step. -/
theorem Bounded.put {path : List Step} (hsteps : ∀ step ∈ path, settings.AdmitsStep step)
    (hleaf : ∀ depth, Bounded settings depth leaf) (h : Bounded settings depth shape)
    (hlength : path.length ≤ depth) : Bounded settings depth (shape.put path leaf) := by
  induction path generalizing shape depth with
  | nil =>
      rw [put_nil, replaced]
      split
      · exact h
      · exact hleaf depth
  | cons step rest ih =>
      cases depth with
      | zero => simp at hlength
      | succ depth =>
          have hstep := hsteps step (by simp)
          have hrest : rest.length ≤ depth := by simpa using hlength
          have hpart : ∀ part, Bounded settings depth part →
              Bounded settings depth (part.put rest leaf) := by
            intro part hbounded
            exact ih (fun other hother => hsteps other (by simp [hother])) hbounded hrest
          rcases put_cases shape step rest leaf with
            hput | ⟨i, hindex, hput⟩ | ⟨-, items, rfl, hput⟩
          · rw [hput]
            exact .alter h.fields hstep.admitsKey (bounded_freshPlace hrest) hpart
          · rw [hput]
            rw [hindex] at hstep
            exact .pad h.items.1 h.items.2 hstep hpart
          · rw [hput]
            exact h

/-! ## Samples -/

theorem bounded_sampleObject (settings : Settings) (depth : Nat) :
    Bounded settings (depth + 1) (Finding.sampleObject settings.entrySample) := by
  have hentry : ∀ field ∈ Fields.ofList (settings.entrySample.map fun entry =>
      (entry.1, Shape.text entry.2)), ∃ entry ∈ settings.entrySample,
        field = (entry.1, .text entry.2) := by
    intro field hfield
    have hfind := (Fields.distinct_ofList _).find?_eq_some_iff.mpr hfield
    obtain ⟨entry, hmem, heq⟩ := List.mem_map.mp (Fields.mem_of_find?_ofList hfind)
    exact ⟨entry, hmem, heq.symm⟩
  apply Bounded.object
  · intro field hfield
    obtain ⟨entry, hmem, rfl⟩ := hentry field hfield
    exact .inr (.inr (List.mem_map_of_mem hmem))
  · intro field hfield
    obtain ⟨entry, hmem, rfl⟩ := hentry field hfield
    exact .text (.inr (List.mem_map_of_mem hmem))

theorem bounded_sampleItems {fields : List String} (h : ∀ field ∈ fields, Tag.IsName field)
    (settings : Settings) (depth : Nat) :
    Bounded settings (depth + 2) (Finding.sampleItems fields) := by
  have hitem : Bounded settings (depth + 1)
      (.object (fields.map fun field => (field, printed))) := by
    apply Bounded.object
    · intro field hfield
      obtain ⟨name, hname, rfl⟩ := List.mem_map.mp hfield
      exact .inl (h name hname)
    · intro field hfield
      obtain ⟨name, -, rfl⟩ := List.mem_map.mp hfield
      exact bounded_printed
  apply Bounded.array
  · exact Nat.le_max_left 2 _
  · simpa using hitem

end Shape

/-! ## Rows -/

def Shape.RowBounded (settings : Settings) (row : Option Shape) : Prop :=
  ∀ shape, row = some shape → Bounded settings Finding.depthLimit shape

theorem Shape.rowBounded_some {settings : Settings} {shape : Shape}
    (h : Bounded settings Finding.depthLimit shape) : RowBounded settings (some shape) := by
  intro other heq
  exact Option.some.inj heq ▸ h

/-- An edit that brings in bounded shapes only, and writes plain values along a path that is not too
deep. -/
def Edit.IsBounded (settings : Settings) : Edit → Prop
  | .learn _ _ shape | .assume _ _ shape => Bounded settings Finding.depthLimit shape
  | .write path leaf => (∀ step ∈ path.tail, settings.AdmitsStep step) ∧
      path.tail.length ≤ Finding.depthLimit ∧ ∀ depth, Bounded settings depth leaf
  | .remark _ => True

theorem Outline.bounded_learned {settings : Settings} {policy : Policy} {shape : Shape}
    {row : Option Shape} (h : Bounded settings Finding.depthLimit shape)
    (hrow : RowBounded settings row) :
    Bounded settings Finding.depthLimit (learned policy shape row) := by
  rcases learned_eq_or policy shape row with hnew | hold
  · rw [hnew]
    exact h
  · exact hrow _ hold

theorem Edit.IsBounded.onRow {settings : Settings} {edit : Edit} (h : edit.IsBounded settings)
    {row : Option Shape} (hrow : RowBounded settings row) :
    RowBounded settings (edit.onRow row) := by
  cases edit with
  | learn policy name shape => exact rowBounded_some (Outline.bounded_learned h hrow)
  | assume policy name shape => exact rowBounded_some (Outline.bounded_learned h hrow)
  | write path leaf =>
      obtain ⟨hsteps, hlength, hleaf⟩ := h
      apply rowBounded_some
      apply Bounded.put hsteps hleaf _ hlength
      cases row with
      | none => exact bounded_freshPlace hlength
      | some shape => exact hrow shape rfl
  | remark notice => exact hrow

namespace Finding

variable {settings : Settings}

def IsNamed : Finding → Prop
  | .itemsPrinted _ fields => ∀ field ∈ fields, Tag.IsName field
  | finding => finding.IsWritten

theorem isBounded_writeAt {path : NamePath} (h : Condition.IsWritten path) {further : List Step}
    (hfurther : ∀ step ∈ further, settings.AdmitsStep step) (hlength : further.length ≤ 1)
    {leaf : Shape} (hleaf : ∀ depth, Bounded settings depth leaf) :
    (writeAt path further leaf).IsBounded settings := by
  unfold writeAt
  split
  · rename_i hdepth
    refine ⟨?_, ?_, hleaf⟩
    · intro step hstep
      rcases List.mem_append.mp hstep with hbelow | hlast
      · obtain ⟨name, hname, rfl⟩ := List.mem_map.mp hbelow
        exact h name (by simp [hname])
      · exact hfurther step hlast
    · have htail : (path.steps ++ further).tail.length = path.rest.length + further.length := by
        simp [NamePath.steps, NamePath.below]
      rw [NamePath.depth] at hdepth
      omega
  · trivial

theorem isBounded_of_mem_editsOfPath {policy : Policy} {path : NamePath}
    (hpath : Condition.IsWritten path) {leaf : Shape} (hleaf : ∀ depth, Bounded settings depth leaf)
    {edit : Edit} (h : edit ∈ editsOfPath policy path leaf) : edit.IsBounded settings := by
  unfold editsOfPath at h
  split at h
  · rw [List.mem_singleton.mp h]
    exact hleaf depthLimit
  · rcases List.mem_cons.mp h with rfl | h
    · exact bounded_object_nil
    · rw [List.mem_singleton.mp h]
      exact isBounded_writeAt hpath (by simp) (by simp) hleaf

theorem IsNamed.of_mem_edits {finding : Finding} (hfinding : finding.IsNamed) {edit : Edit}
    (h : edit ∈ finding.edits settings) : edit.IsBounded settings := by
  have hprinted : ∀ depth, Bounded settings depth Shape.printed := fun _ => bounded_printed
  have htested : ∀ depth, Bounded settings depth Shape.tested := fun _ => .flag
  cases finding with
  | assigned path => exact isBounded_of_mem_editsOfPath hfinding hprinted h
  | printed path => exact isBounded_of_mem_editsOfPath hfinding hprinted h
  | looped list =>
      rw [List.mem_singleton.mp h]
      exact .array (by rw [List.length_singleton]; omega) (by simpa using bounded_printed)
  | entriesLooped mapping =>
      rw [List.mem_singleton.mp h]
      exact bounded_sampleObject settings _
  | tested path =>
      simp only [edits] at h
      split at h
      · rw [List.mem_singleton.mp h]
        exact .flag
      · exact isBounded_of_mem_editsOfPath hfinding htested h
  | indexed path =>
      simp only [edits, List.mem_cons, List.not_mem_nil, or_false] at h
      rcases h with rfl | rfl
      · change Bounded settings depthLimit (if path.base.isBare then .array [] else .object [])
        split
        · exact bounded_array_nil
        · exact bounded_object_nil
      · split
        · rename_i hindex
          have hlast : ∀ step ∈ [Step.index path.index], settings.AdmitsStep step := by
            intro step hstep
            rw [List.mem_singleton.mp hstep]
            exact hindex
          exact isBounded_writeAt hfinding hlast (by simp) hprinted
        · trivial
  | itemsPrinted list fields =>
      simp only [edits] at h
      split at h
      · simp at h
      · simp only [List.mem_cons, List.not_mem_nil, or_false] at h
        rcases h with rfl | rfl
        · trivial
        · exact bounded_sampleItems hfinding settings _

theorem IsNamed.onRow {finding : Finding} (h : finding.IsNamed) {row : Option Shape}
    (hrow : RowBounded settings row) : RowBounded settings (finding.onRow settings row) :=
  List.foldlRecOn (finding.edits settings) Edit.onRow hrow fun _ hafter _ hedit =>
    (h.of_mem_edits hedit).onRow hafter

theorem rowBounded_foldl_onRow {findings : List Finding}
    (h : ∀ finding ∈ findings, finding.IsNamed) {row : Option Shape}
    (hrow : RowBounded settings row) :
    RowBounded settings (findings.foldl (Finding.onRow settings) row) :=
  List.foldlRecOn findings (Finding.onRow settings) hrow fun _ hafter finding hmem =>
    (h finding hmem).onRow hafter

end Finding

/-! ## Outlines -/

namespace Tag

open Scan

theorem gives_printedField : Gives (fun found => IsName found.field) printedField := by
  unfold printedField
  refine .after fun _ => .after fun _ => .after fun owner => .after fun _ => ?_
  refine gives_name.bind fun field hfield => ?_
  exact .pure hfield

theorem Loop.isName_of_mem_fields {loop : Loop} {field : String} (h : field ∈ loop.fields) :
    IsName field :=
  Gives.of_mem_findAll (fun _ => gives_printedField) (mem_fields_iff.mp h)

end Tag

theorem Pass.isNamed_of_mem_uses {pass : Pass} {template : List Char} {use : Finding}
    (h : use ∈ pass.uses template) : use.IsNamed := by
  cases hitems : use.isItems with
  | false =>
      cases use with
      | itemsPrinted list fields => simp [Finding.isItems] at hitems
      | _ => exact isWritten_of_mem_uses h
  | true =>
      by_cases hpass : pass = .loopItems
      · subst hpass
        obtain ⟨loop, -, rfl⟩ := List.mem_map.mp h
        exact fun field hfield => Tag.Loop.isName_of_mem_fields hfield
      · simp [Pass.isItems_of_mem_uses hpass h] at hitems

theorem Outline.bounded_find?_ofTemplate {settings : Settings} {template name : String}
    {shape : Shape} (h : (ofTemplate settings template).find? name = some shape) :
    shape.Bounded settings Finding.depthLimit := by
  rw [find?_ofTemplate] at h
  split at h
  · simp at h
  · have hnone : RowBounded settings none := by
      intro shape heq
      simp at heq
    refine Finding.rowBounded_foldl_onRow ?_ hnone shape h
    intro use huse
    obtain ⟨pass, -, hmem⟩ := List.mem_flatMap.mp (List.mem_filter.mp huse).1
    exact Pass.isNamed_of_mem_uses hmem

end TemplateShape
