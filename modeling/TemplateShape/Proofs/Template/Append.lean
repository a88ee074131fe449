import Mathlib.Data.List.Infix
import TemplateShape.Proofs.Template.Kind
import TemplateShape.Proofs.Template.Lookahead
import TemplateShape.Proofs.Template.Names

/-! # Templates that go on

What a template shows it still shows when more text is written behind it, even if it ends in the
middle of a tag: every pass finds the same matches again before it finds others. So no variable is
lost, and none that holds others becomes plain. -/

namespace TemplateShape

open Scan

/-! ## Matches -/

theorem Pass.matchesOf_prefix_append {α : Type} {tag : Scan α} (hclosed : Closed tag)
    (hprompt : Prompt tag) (front back : List Char) :
    matchesOf tag front <+: matchesOf tag (front ++ back) :=
  findAll_prefix_append hclosed hprompt front back

namespace Template

variable (front back : List Char)

theorem assigned_prefix_append : assigned front <+: assigned (front ++ back) :=
  Pass.matchesOf_prefix_append Tag.closed_assignment
    (Tag.apart_assignment.prompt Tag.closed_assignment) front back

theorem printed_prefix_append : printed front <+: printed (front ++ back) :=
  Pass.matchesOf_prefix_append Tag.closed_output
    (prompt_of_doubled Tag.closed_output Tag.ends_output) front back

theorem headers_prefix_append :
    Pass.matchesOf Tag.loopHeader front <+: Pass.matchesOf Tag.loopHeader (front ++ back) :=
  Pass.matchesOf_prefix_append Tag.closed_loopHeader
    (Tag.apart_loopHeader.prompt Tag.closed_loopHeader) front back

theorem entriesLooped_prefix_append : entriesLooped front <+: entriesLooped (front ++ back) :=
  Pass.matchesOf_prefix_append Tag.closed_entriesHeader
    (Tag.apart_entriesHeader.prompt Tag.closed_entriesHeader) front back

theorem expressions_prefix_append :
    Pass.matchesOf Tag.condition front <+: Pass.matchesOf Tag.condition (front ++ back) :=
  Pass.matchesOf_prefix_append Tag.closed_condition
    (Tag.apart_condition.prompt Tag.closed_condition) front back

theorem indexed_prefix_append : indexed front <+: indexed (front ++ back) :=
  Pass.matchesOf_prefix_append Tag.closed_indexedOutput
    (prompt_of_doubled Tag.closed_indexedOutput Tag.ends_indexedOutput) front back

theorem loops_prefix_append : loops front <+: loops (front ++ back) :=
  Pass.matchesOf_prefix_append Tag.closed_loop Tag.prompt_loop front back

end Template

/-- What a pass sees in a template comes first in what it sees once the template goes on. -/
theorem Pass.uses_prefix_append (front back : List Char) (pass : Pass) :
    pass.uses front <+: pass.uses (front ++ back) := by
  cases pass with
  | assignment => exact (Template.assigned_prefix_append front back).map _
  | output => exact (Template.printed_prefix_append front back).map _
  | loop => exact (Template.headers_prefix_append front back).map _
  | entriesLoop => exact (Template.entriesLooped_prefix_append front back).map _
  | condition => exact (Template.expressions_prefix_append front back).flatMap _
  | itemAccess => exact (Template.indexed_prefix_append front back).map _
  | loopItems => exact (Template.loops_prefix_append front back).map _

/-! ## Containers -/

namespace Shape

theorem Lasts.isContainer {before after : Shape} (h : before.Lasts after)
    (hbefore : before.isContainer = true) : after.isContainer = true := by
  cases before with
  | object fields =>
      obtain ⟨more, hmore, -⟩ := h.get?_object (get?_nil (.object fields))
      have hafter : after = .object more := Option.some.inj hmore
      simp [hafter, Shape.isContainer, isPlain]
  | array items =>
      obtain ⟨more, hmore, -⟩ := h.get?_array (get?_nil (.array items))
      have hafter : after = .array more := Option.some.inj hmore
      simp [hafter, Shape.isContainer, isPlain]
  | text value => simp [Shape.isContainer, isPlain] at hbefore
  | flag value => simp [Shape.isContainer, isPlain] at hbefore

theorem Kind.any_isContainer_foldl_adopt (known : Option Kind) (kinds : List Kind) :
    (kinds.foldl adopt known).any isContainer =
      (known.any isContainer || kinds.any isContainer) := by
  induction kinds generalizing known with
  | nil => simp
  | cons kind rest ih =>
      have hstep : (adopt known kind).any isContainer =
          (known.any isContainer || kind.isContainer) := by
        cases known with
        | none => simp [adopt]
        | some other => cases hother : other.isContainer <;> cases hkind : kind.isContainer <;>
            simp [adopt, hother, hkind]
      rw [List.foldl_cons, ih, hstep, List.any_cons, Bool.or_assoc]

theorem any_isContainer_eq (row : Option Shape) :
    row.any isContainer = (row.map kind).any Kind.isContainer := by
  cases row with
  | none => rfl
  | some shape => simp [Shape.isContainer]

end Shape

/-- Behind the pass over assignments it only matters which uses there are. -/
theorem Finding.any_isContainer_foldl_onRow (settings : Settings) {findings : List Finding}
    (h : ∀ path, .assigned path ∉ findings) (row : Option Shape) :
    (findings.foldl (onRow settings) row).any Shape.isContainer =
      (row.any Shape.isContainer || (findings.filterMap suggests).any Shape.Kind.isContainer) := by
  have hdepth : ∀ path, .assigned path ∈ findings → path.depth ≤ depthLimit :=
    fun path hpath => absurd hpath (h path)
  rw [Shape.any_isContainer_eq, kind_foldl_onRow settings hdepth,
    Shape.Kind.any_isContainer_foldl_adopt, ← Shape.any_isContainer_eq]

namespace Pass

theorem usesOf_append (passes others : List Pass) (template : List Char) (name : String) :
    usesOf (passes ++ others) template name =
      usesOf passes template name ++ usesOf others template name := by
  rw [usesOf, List.flatMap_append, List.filter_append]
  rfl

theorem mem_usesOf_append {passes : List Pass} {front : List Char} {name : String}
    {use : Finding} (h : use ∈ usesOf passes front name) (back : List Char) :
    use ∈ usesOf passes (front ++ back) name := by
  obtain ⟨hmem, hroot⟩ := List.mem_filter.mp h
  obtain ⟨pass, hpass, huse⟩ := List.mem_flatMap.mp hmem
  have hlonger : use ∈ pass.uses (front ++ back) :=
    (uses_prefix_append front back pass).subset huse
  exact List.mem_filter.mpr ⟨List.mem_flatMap.mpr ⟨pass, hpass, hlonger⟩, hroot⟩

theorem assigned_notMem_usesOf (template : List Char) (name : String) (path : NamePath) :
    .assigned path ∉ usesOf (all.drop 1) template name := by
  intro h
  obtain ⟨hmem, -⟩ := List.mem_filter.mp h
  obtain ⟨pass, hpass, huse⟩ := List.mem_flatMap.mp hmem
  cases pass with
  | assignment => exact absurd hpass (by decide)
  | condition =>
      rw [Template.uses_condition] at huse
      simp at huse
  | _ => simp [uses] at huse

end Pass

namespace Template

variable (settings : Settings) (front back : List Char) (name : String)

def assignedRow (settings : Settings) (template : List Char) (name : String) : Option Shape :=
  (Pass.usesOf [.assignment] template name).foldl (Finding.onRow settings) none

theorem foldl_onRow_usesOf_all (template : List Char) :
    (Pass.usesOf Pass.all template name).foldl (Finding.onRow settings) none =
      (Pass.usesOf (Pass.all.drop 1) template name).foldl (Finding.onRow settings)
        (assignedRow settings template name) := by
  have hall : Pass.all = [.assignment] ++ Pass.all.drop 1 := rfl
  rw [assignedRow, ← List.foldl_append, ← Pass.usesOf_append, ← hall]

theorem assignedRow_append :
    RowKeeps Shape.Lasts (assignedRow settings front name)
      (assignedRow settings (front ++ back) name) := by
  have hprefix : Pass.usesOf [.assignment] front name <+:
      Pass.usesOf [.assignment] (front ++ back) name := by
    rw [Pass.usesOf, Pass.usesOf, List.flatMap_singleton, List.flatMap_singleton]
    exact (Pass.uses_prefix_append front back .assignment).filter _
  obtain ⟨more, hmore⟩ := hprefix
  rw [assignedRow, assignedRow, ← hmore, List.foldl_append]
  exact Finding.foldl_onRow_lasts settings more _

end Template

theorem Outline.isContainer_find?_append {settings : Settings} {front name : String}
    {shape : Shape} (h : (ofTemplate settings front).find? name = some shape)
    (hshape : shape.isContainer = true) (back : String) :
    ∃ grown, (ofTemplate settings (front ++ back)).find? name = some grown ∧
      grown.isContainer = true := by
  rw [find?_ofTemplate] at h
  split at h
  · simp at h
  · rename_i hignores
    have hany : ((Pass.usesOf Pass.all (front ++ back).toList name).foldl
        (Finding.onRow settings) none).any Shape.isContainer = true := by
      have hnow : (some shape).any Shape.isContainer = true := hshape
      rw [← h, Template.foldl_onRow_usesOf_all, Finding.any_isContainer_foldl_onRow settings
        (Pass.assigned_notMem_usesOf _ _), Bool.or_eq_true] at hnow
      rw [String.toList_append, Template.foldl_onRow_usesOf_all,
        Finding.any_isContainer_foldl_onRow settings (Pass.assigned_notMem_usesOf _ _),
        Bool.or_eq_true]
      rcases hnow with hassigned | hsuggested
      · obtain ⟨row, hrow, hcontainer⟩ := (Option.any_eq_true _ _).mp hassigned
        obtain ⟨later, hlater, hlasts⟩ := Template.assignedRow_append settings front.toList
          back.toList name row hrow
        exact .inl (by simp [hlater, hlasts.isContainer hcontainer])
      · obtain ⟨kind, hkind, hcontainer⟩ := List.any_eq_true.mp hsuggested
        obtain ⟨use, huse, hsuggests⟩ := List.mem_filterMap.mp hkind
        refine .inr (List.any_eq_true.mpr ⟨kind, ?_, hcontainer⟩)
        exact List.mem_filterMap.mpr ⟨use, Pass.mem_usesOf_append huse back.toList, hsuggests⟩
    rw [find?_ofTemplate, if_neg hignores]
    exact (Option.any_eq_true _ _).mp hany

/-! ## Names -/

theorem Outline.mem_names_append {settings : Settings} {front name : String}
    (h : name ∈ (ofTemplate settings front).names) (back : String) :
    name ∈ (ofTemplate settings (front ++ back)).names := by
  obtain ⟨hignores, pass, hpass, use, huse, hroot⟩ := mem_names_ofTemplate_iff.mp h
  refine mem_names_ofTemplate_iff.mpr ⟨hignores, pass, hpass, use, ?_, hroot⟩
  rw [String.toList_append]
  exact (Pass.uses_prefix_append front.toList back.toList pass).subset huse

namespace Template

/-- A template may end anywhere, also in the middle of a tag: when it goes on, no variable is lost,
and an object or an array stays a container. For each kind of tag the matches that were found are
the first ones of the longer template, and so are the fields that are printed in the bodies of its
loops. -/
theorem going_on_loses_nothing (settings : Settings) (front back : String) :
    (∀ name ∈ (Outline.ofTemplate settings front).names,
      name ∈ (Outline.ofTemplate settings (front ++ back)).names) ∧
    (∀ name shape, (Outline.ofTemplate settings front).find? name = some shape →
      shape.isContainer = true →
      ∃ grown, (Outline.ofTemplate settings (front ++ back)).find? name = some grown ∧
        grown.isContainer = true) ∧
    Pass.matchesOf Tag.assignment front.toList <+:
      Pass.matchesOf Tag.assignment (front ++ back).toList ∧
    Pass.matchesOf Tag.output front.toList <+: Pass.matchesOf Tag.output (front ++ back).toList ∧
    Pass.matchesOf Tag.loopHeader front.toList <+:
      Pass.matchesOf Tag.loopHeader (front ++ back).toList ∧
    Pass.matchesOf Tag.entriesHeader front.toList <+:
      Pass.matchesOf Tag.entriesHeader (front ++ back).toList ∧
    Pass.matchesOf Tag.condition front.toList <+:
      Pass.matchesOf Tag.condition (front ++ back).toList ∧
    Pass.matchesOf Tag.indexedOutput front.toList <+:
      Pass.matchesOf Tag.indexedOutput (front ++ back).toList ∧
    Pass.matchesOf Tag.loop front.toList <+: Pass.matchesOf Tag.loop (front ++ back).toList ∧
    (loops front.toList).flatMap (fun loop => Pass.matchesOf Tag.printedField loop.body) <+:
      (loops (front ++ back).toList).flatMap
        (fun loop => Pass.matchesOf Tag.printedField loop.body) := by
  refine ⟨fun _ h => Outline.mem_names_append h back,
    fun _ _ h hshape => Outline.isContainer_find?_append h hshape back, ?_⟩
  rw [String.toList_append]
  refine ⟨assigned_prefix_append _ _, printed_prefix_append _ _, headers_prefix_append _ _,
    entriesLooped_prefix_append _ _, expressions_prefix_append _ _, indexed_prefix_append _ _,
    loops_prefix_append _ _, ?_⟩
  exact (loops_prefix_append front.toList back.toList).flatMap _

/-- The tag in which this template ends takes the place of no other once it is finished. -/
theorem going_on_loses_nothing_in_tag :
    "a" ∈ (Outline.ofTemplate {} "{{ a.b }}\x7b\x7b c | d").names ∧
    "a" ∈ (Outline.ofTemplate {} ("{{ a.b }}\x7b\x7b c | d" ++ " \x7d\x7d")).names ∧
    ∃ shape, (Outline.ofTemplate {} "{{ a.b }}\x7b\x7b c | d").find? "a" = some shape ∧
      shape.isContainer = true ∧
      ∃ grown, (Outline.ofTemplate {} ("{{ a.b }}\x7b\x7b c | d" ++ " \x7d\x7d")).find? "a" =
        some grown ∧ grown.isContainer = true := by
  have hname : "a" ∈ (Outline.ofTemplate {} "{{ a.b }}\x7b\x7b c | d").names := by decide +kernel
  have hany : ((Outline.ofTemplate {} "{{ a.b }}\x7b\x7b c | d").find? "a").any Shape.isContainer =
      true := by decide +kernel
  obtain ⟨hnames, hcontainers, -⟩ := going_on_loses_nothing {} "{{ a.b }}\x7b\x7b c | d" " \x7d\x7d"
  obtain ⟨shape, hshape, hcontainer⟩ := (Option.any_eq_true _ _).mp hany
  exact ⟨hname, hnames "a" hname, shape, hshape, hcontainer,
    hcontainers "a" shape hshape hcontainer⟩

end Template

end TemplateShape
