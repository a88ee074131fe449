import TemplateShape.Template.Outline
import TemplateShape.Proofs.Shape.Growth

/-! # Rows of an outline

A finding touches the row of its variable alone. So the shape of a variable is what the findings
about it, in their order, make of an empty row. -/

namespace TemplateShape

/-! ## Edits on one row -/

namespace Outline

theorem find?_isSome_iff (outline : Outline) (name : String) :
    (outline.find? name).isSome ↔ name ∈ outline.names :=
  Fields.find?_isSome_iff outline.entries name

def learned (policy : Policy) (shape : Shape) : Option Shape → Shape
  | none => shape
  | some existing => if policy.replaces existing shape then shape else existing

theorem learned_eq_or (policy : Policy) (shape : Shape) (row : Option Shape) :
    learned policy shape row = shape ∨ row = some (learned policy shape row) := by
  cases row with
  | none => exact .inl rfl
  | some existing =>
      rw [learned]
      split
      · exact .inl rfl
      · exact .inr rfl

theorem find?_learn (outline : Outline) (policy : Policy) (target name : String) (shape : Shape) :
    (outline.learn policy target shape).find? name =
      if name = target then some (learned policy shape (outline.find? target))
      else outline.find? name := by
  unfold find? learn
  rw [Fields.find?_alter]
  cases Fields.find? outline.entries target with
  | none => simp [learned]
  | some existing => rfl

theorem find?_put (outline : Outline) (target name : String) (rest : List Step) (leaf : Shape) :
    (outline.put (.key target :: rest) leaf).find? name =
      if name = target then
        some (((outline.find? target).getD (Shape.freshPlace rest)).put rest leaf)
      else outline.find? name :=
  Fields.find?_alter ..

theorem find?_restrict (outline : Outline) (names : List String) (name : String) :
    (outline.restrict names).find? name =
      if names.contains name then outline.find? name else none :=
  Fields.find?_filter (fun key => names.contains key) outline.entries name

end Outline

namespace Edit

/-- An edit of the row of a name, or of none. -/
def Concerns (name : String) : Edit → Prop
  | .learn _ target _ | .assume _ target _ => target = name
  | .write path _ => ∃ rest, path = .key name :: rest
  | .remark _ => True

def onRow (row : Option Shape) : Edit → Option Shape
  | .learn policy _ shape | .assume policy _ shape => some (Outline.learned policy shape row)
  | .write path leaf => some ((row.getD (Shape.freshPlace path.tail)).put path.tail leaf)
  | .remark _ => row

theorem find?_apply {edit : Edit} {target : String} (h : edit.Concerns target) (outline : Outline)
    (name : String) :
    (edit.apply outline).find? name =
      if name = target then edit.onRow (outline.find? target) else outline.find? name := by
  cases edit with
  | learn policy key shape =>
      obtain rfl : key = target := h
      exact Outline.find?_learn ..
  | assume policy key shape =>
      obtain rfl : key = target := h
      exact Outline.find?_learn ..
  | write path leaf =>
      obtain ⟨rest, rfl⟩ := h
      exact Outline.find?_put ..
  | remark notice =>
      split
      · rename_i hname
        rw [hname]
        rfl
      · rfl

theorem names_prefix_apply (edit : Edit) (outline : Outline) :
    outline.names <+: (edit.apply outline).names := by
  cases edit with
  | learn policy name shape => exact Fields.names_prefix_alter ..
  | assume policy name shape => exact Fields.names_prefix_alter ..
  | write path leaf =>
      cases path with
      | nil => exact List.prefix_rfl
      | cons step rest =>
          cases step with
          | key root => exact Fields.names_prefix_alter ..
          | index i => exact List.prefix_rfl
  | remark notice => exact List.prefix_rfl

theorem find?_foldl_apply {edits : List Edit} {target : String}
    (h : ∀ edit ∈ edits, edit.Concerns target) (outline : Outline) (name : String) :
    (edits.foldl apply outline).find? name =
      if name = target then edits.foldl onRow (outline.find? target) else outline.find? name := by
  induction edits generalizing outline with
  | nil =>
      by_cases hname : name = target <;> simp [hname]
  | cons edit rest ih =>
      have hedit := find?_apply (h edit (by simp)) outline
      rw [List.foldl_cons, List.foldl_cons, ih (fun e he => h e (by simp [he])), hedit, hedit,
        if_pos rfl]
      by_cases hname : name = target <;> simp [hname]

theorem names_prefix_foldl_apply (edits : List Edit) (outline : Outline) :
    outline.names <+: (edits.foldl apply outline).names := by
  induction edits generalizing outline with
  | nil => exact List.prefix_rfl
  | cons edit rest ih => exact (names_prefix_apply edit outline).trans (ih _)

end Edit

/-! ## Findings on one row -/

namespace Finding

theorem concerns_writeAt (path : NamePath) (further : List Step) (leaf : Shape) :
    (writeAt path further leaf).Concerns path.root := by
  unfold writeAt
  split
  · exact ⟨path.below ++ further, rfl⟩
  · trivial

theorem concerns_of_mem_editsOfPath {policy : Policy} {path : NamePath} {leaf : Shape}
    {edit : Edit} (h : edit ∈ editsOfPath policy path leaf) : edit.Concerns path.root := by
  unfold editsOfPath at h
  split at h
  · obtain rfl := List.mem_singleton.mp h
    rfl
  · rcases List.mem_cons.mp h with rfl | h
    · rfl
    · obtain rfl := List.mem_singleton.mp h
      exact concerns_writeAt path [] leaf

theorem concerns_root {settings : Settings} {finding : Finding} {edit : Edit}
    (h : edit ∈ finding.edits settings) : edit.Concerns finding.root := by
  cases finding with
  | assigned path => exact concerns_of_mem_editsOfPath h
  | printed path => exact concerns_of_mem_editsOfPath h
  | looped list =>
      obtain rfl := List.mem_singleton.mp h
      rfl
  | entriesLooped mapping =>
      obtain rfl := List.mem_singleton.mp h
      rfl
  | tested path =>
      simp only [edits] at h
      split at h
      · obtain rfl := List.mem_singleton.mp h
        rfl
      · exact concerns_of_mem_editsOfPath h
  | indexed path =>
      simp only [edits, List.mem_cons, List.not_mem_nil, or_false] at h
      rcases h with rfl | rfl
      · rfl
      · split
        · exact concerns_writeAt path.base _ _
        · trivial
  | itemsPrinted list fields =>
      simp only [edits] at h
      split at h
      · cases h
      · simp only [List.mem_cons, List.not_mem_nil, or_false] at h
        rcases h with rfl | rfl
        · trivial
        · rfl

def onRow (settings : Settings) (row : Option Shape) (finding : Finding) : Option Shape :=
  (finding.edits settings).foldl Edit.onRow row

theorem onRow_writeAt {path : NamePath} (h : path.depth ≤ depthLimit) (further : List Step)
    (shape leaf : Shape) :
    (writeAt path further leaf).onRow (some shape) =
      some (shape.put (path.below ++ further) leaf) := by
  rw [writeAt, if_pos h]
  rfl

theorem foldl_editsOfPath_bare {path : NamePath} (h : path.isBare = true) (policy : Policy)
    (leaf : Shape) (row : Option Shape) :
    (editsOfPath policy path leaf).foldl Edit.onRow row =
      some (Outline.learned .keep leaf row) := by
  rw [editsOfPath, if_pos h]
  rfl

theorem foldl_editsOfPath_dotted {path : NamePath} (h : path.isBare = false) (policy : Policy)
    (leaf : Shape) (row : Option Shape) :
    (editsOfPath policy path leaf).foldl Edit.onRow row =
      (writeAt path [] leaf).onRow (some (Outline.learned policy (.object []) row)) := by
  rw [editsOfPath, h]
  rfl

/-- A bare path that is tested is learned in silence, which makes no difference to its row. -/
theorem onRow_tested (settings : Settings) (row : Option Shape) (path : NamePath) :
    onRow settings row (.tested path) =
      (editsOfPath .upgrade path Shape.tested).foldl Edit.onRow row := by
  rw [onRow, edits]
  split
  · rename_i hbare
    rw [foldl_editsOfPath_bare hbare]
    rfl
  · rfl

theorem onRow_indexed {settings : Settings} {path : Tag.IndexedPath}
    (hindex : path.index ≤ settings.indexLimit) (hdepth : path.base.depth ≤ depthLimit)
    (row : Option Shape) :
    onRow settings row (.indexed path) =
      some ((Outline.learned .upgrade
        (if path.base.isBare then .array [] else .object []) row).put
          (path.base.below ++ [.index path.index]) Shape.printed) := by
  rw [onRow, edits, if_pos hindex]
  exact onRow_writeAt hdepth [.index path.index] _ Shape.printed

end Finding

/-! ## Drafts, row by row -/

namespace Draft

variable (settings : Settings)

@[simp] theorem outline_markRead (draft : Draft) (name : String) :
    (draft.markRead name).outline = draft.outline := by
  unfold markRead
  split <;> rfl

theorem mem_readNames_markRead (draft : Draft) (key name : String) :
    name ∈ (draft.markRead key).readNames ↔ name ∈ draft.readNames ∨ name = key := by
  unfold markRead
  split
  · rename_i h
    have hkey : key ∈ draft.readNames := by simpa using h
    constructor
    · exact .inl
    · rintro (h | rfl)
      · exact h
      · exact hkey
  · simp

theorem find?_add (draft : Draft) (finding : Finding) (name : String) :
    (draft.add settings finding).outline.find? name =
      if finding.root = name then finding.onRow settings (draft.outline.find? name)
      else draft.outline.find? name := by
  have hconcerns : ∀ edit ∈ finding.edits settings, edit.Concerns finding.root :=
    fun _ => Finding.concerns_root
  have h := Edit.find?_foldl_apply hconcerns (draft.markRead finding.root).outline name
  rw [outline_markRead] at h
  refine (congrArg (fun outline : Outline => outline.find? name) ?_).trans (h.trans ?_)
  · simp [add]
  · by_cases hname : name = finding.root
    · subst hname
      simp [Finding.onRow]
    · rw [if_neg hname, if_neg (Ne.symm hname)]

theorem names_prefix_add (draft : Draft) (finding : Finding) :
    draft.outline.names <+: (draft.add settings finding).outline.names := by
  simpa [add] using Edit.names_prefix_foldl_apply (finding.edits settings) draft.outline

/-- Findings about other variables drop out of what a run does to a row. -/
theorem find?_foldl_add (findings : List Finding) (draft : Draft) (name : String) :
    (findings.foldl (add settings) draft).outline.find? name =
      (findings.filter (·.root == name)).foldl (Finding.onRow settings)
        (draft.outline.find? name) := by
  induction findings generalizing draft with
  | nil => rfl
  | cons finding rest ih =>
      rw [List.foldl_cons, ih, find?_add, List.filter_cons]
      by_cases hroot : finding.root = name
      · simp [hroot]
      · simp [hroot]

/-- Every name with a shape is one that is read. -/
def Settled (draft : Draft) : Prop :=
  ∀ name ∈ draft.outline.names, name ∈ draft.readNames

theorem Settled.add {draft : Draft} (h : draft.Settled) (finding : Finding) :
    (draft.add settings finding).Settled := by
  intro name hname
  refine (mem_readNames_markRead draft finding.root name).mpr ?_
  by_cases hroot : finding.root = name
  · exact .inr hroot.symm
  · rw [← Outline.find?_isSome_iff, find?_add, if_neg hroot, Outline.find?_isSome_iff] at hname
    exact .inl (h name hname)

theorem Settled.foldl_add {draft : Draft} (h : draft.Settled) (findings : List Finding) :
    (findings.foldl (Draft.add settings) draft).Settled :=
  List.foldlRecOn findings (Draft.add settings) h fun _ hafter finding _ =>
    hafter.add settings finding

theorem Settled.find?_close {draft : Draft} (h : draft.Settled) (name : String) :
    draft.close.find? name = draft.outline.find? name := by
  rw [close, Outline.find?_restrict]
  split
  · rfl
  · rename_i hname
    cases hfind : draft.outline.find? name with
    | none => rfl
    | some shape =>
        have hmem : name ∈ draft.outline.names := by
          rw [← Outline.find?_isSome_iff, hfind]
          rfl
        exact absurd (by simpa using h name hmem) hname

/-! ## The row of a variable -/

theorem ofTemplate_eq_foldl_add (passes : List Pass) (template : List Char) :
    ofTemplate settings passes template =
      (passes.flatMap (Pass.findings settings template)).foldl (add settings) {} := by
  rw [List.foldl_flatMap]
  rfl

theorem settled_ofTemplate (passes : List Pass) (template : List Char) :
    (ofTemplate settings passes template).Settled := by
  rw [ofTemplate_eq_foldl_add]
  exact Settled.foldl_add settings (fun name hname => by cases hname) _

end Draft

/-- The uses of one variable that some passes see, in the order in which they are met. -/
def Pass.usesOf (passes : List Pass) (template : List Char) (name : String) : List Finding :=
  (passes.flatMap (Pass.uses template)).filter (·.root == name)

theorem Pass.filter_root_findings (settings : Settings) (passes : List Pass)
    (template : List Char) (name : String) :
    (passes.flatMap (Pass.findings settings template)).filter (·.root == name) =
      if settings.ignores name then [] else Pass.usesOf passes template name := by
  have hpass : ∀ pass : Pass, (pass.findings settings template).filter (·.root == name) =
      if settings.ignores name then [] else (pass.uses template).filter (·.root == name) := by
    intro pass
    rw [Pass.findings, List.filter_filter]
    cases hignores : settings.ignores name with
    | true =>
        refine List.filter_eq_nil_iff.mpr ?_
        intro finding _ h
        simp only [Bool.and_eq_true, beq_iff_eq] at h
        simp [h.1, hignores] at h
    | false =>
        refine List.filter_congr ?_
        intro finding _
        by_cases hroot : finding.root = name
        · simp [hroot, hignores]
        · simp [hroot]
  induction passes with
  | nil => simp [Pass.usesOf]
  | cons pass rest ih =>
      rw [List.flatMap_cons, List.filter_append, hpass, ih]
      split
      · rfl
      · rw [Pass.usesOf, Pass.usesOf, List.flatMap_cons, List.filter_append]

/-- The shape of a variable is what its uses make of an empty row. -/
theorem Draft.find?_ofTemplate (settings : Settings) (passes : List Pass) (template : List Char)
    (name : String) :
    (Draft.ofTemplate settings passes template).outline.find? name =
      if settings.ignores name then none
      else (Pass.usesOf passes template name).foldl (Finding.onRow settings) none := by
  rw [ofTemplate_eq_foldl_add, find?_foldl_add, Pass.filter_root_findings]
  split <;> rfl

theorem Outline.find?_ofTemplate (settings : Settings) (template name : String) :
    (Outline.ofTemplate settings template).find? name =
      if settings.ignores name then none
      else (Pass.usesOf Pass.all template.toList name).foldl (Finding.onRow settings) none := by
  rw [Outline.ofTemplate, (Draft.settled_ofTemplate settings _ _).find?_close]
  exact Draft.find?_ofTemplate ..

end TemplateShape
