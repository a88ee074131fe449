import TemplateShape.Proofs.Outline.Rows
import TemplateShape.Proofs.Template.Tags

/-! # What a template shows of its variables

The matches of the passes, one list for each kind of use. Every loop with a body is also a loop by
its header alone, and its fields are the printed fields in its body that its item owns. -/

namespace TemplateShape

/-! ## Printed fields of items -/

namespace Tag.Loop

variable {loop : Tag.Loop}

theorem mem_fields_iff {field : String} :
    field ∈ loop.fields ↔
      ⟨loop.header.item, field⟩ ∈ Pass.matchesOf Tag.printedField loop.body := by
  rw [fields, List.mem_eraseDups, List.mem_map]
  constructor
  · rintro ⟨⟨owner, name⟩, hfound, rfl⟩
    obtain ⟨hmem, howner⟩ := List.mem_filter.mp hfound
    obtain rfl : owner = loop.header.item := by simpa using howner
    exact hmem
  · intro hmem
    exact ⟨_, List.mem_filter.mpr ⟨hmem, by simp⟩, rfl⟩

theorem isEmpty_fields : loop.fields.isEmpty =
    !(Pass.matchesOf Tag.printedField loop.body).any (·.owner == loop.header.item) := by
  rw [Bool.eq_iff_iff, List.isEmpty_iff, Bool.not_eq_true', List.any_eq_false,
    List.eq_nil_iff_forall_not_mem]
  constructor
  · rintro hnone ⟨owner, field⟩ hfound howner
    obtain rfl : owner = loop.header.item := by simpa using howner
    exact hnone field (mem_fields_iff.mpr hfound)
  · intro hnone field hfield
    exact hnone _ (mem_fields_iff.mp hfield) (by simp)

end Tag.Loop

/-! ## Uses by kind -/

namespace Template

/-- The sources of assignments. -/
def assigned (template : List Char) : List NamePath :=
  Pass.matchesOf Tag.assignment template

def printed (template : List Char) : List NamePath :=
  Pass.matchesOf Tag.output template

/-- The lists that a loop header goes over. -/
def looped (template : List Char) : List String :=
  (Pass.matchesOf Tag.loopHeader template).map Tag.LoopHeader.list

/-- The mappings whose entries are looped over. -/
def entriesLooped (template : List Char) : List String :=
  Pass.matchesOf Tag.entriesHeader template

def tested (template : List Char) : List NamePath :=
  (Pass.matchesOf Tag.condition template).flatMap (Condition.reads fun _ => false)

def indexed (template : List Char) : List Tag.IndexedPath :=
  Pass.matchesOf Tag.indexedOutput template

def loops (template : List Char) : List Tag.Loop :=
  Pass.matchesOf Tag.loop template

def itemsOf (loop : Tag.Loop) : Finding :=
  .itemsPrinted loop.header.list loop.fields

/-- The header of a loop with a body is found by itself, too. -/
theorem mem_looped_of_mem_loops {template : List Char} {loop : Tag.Loop}
    (h : loop ∈ loops template) : loop.header.list ∈ looped template := by
  obtain ⟨-, suffix, rest, hsuffix, hloop⟩ := Scan.exists_suffix_of_mem_findAll h
  obtain ⟨behind, hheader⟩ := Tag.loopHeader_of_loop hloop
  exact List.mem_map_of_mem (Tag.apart_loopHeader.mem_findAll hsuffix hheader)

theorem looped_mem_uses_of_mem_loops {template : List Char} {loop : Tag.Loop}
    (h : loop ∈ loops template) : .looped loop.header.list ∈ Pass.uses template .loop := by
  have hmem := mem_looped_of_mem_loops h
  simpa [Pass.uses, looped] using hmem

theorem filter_loops_eq_nil {template : List Char} {name : String} (h : name ∉ looped template) :
    (loops template).filter (·.header.list == name) = [] := by
  refine List.filter_eq_nil_iff.mpr ?_
  intro loop hloop hname
  obtain rfl : loop.header.list = name := by simpa using hname
  exact h (mem_looped_of_mem_loops hloop)

variable (template : List Char) (name : String)

theorem uses_condition :
    Pass.uses template .condition = (tested template).map .tested := by
  rw [tested, List.map_flatMap]
  rfl

/-- The uses of a variable that the first six passes see. -/
theorem usesOf_take_six : Pass.usesOf (Pass.all.take 6) template name =
    ((assigned template).filter (·.root == name)).map .assigned ++
    (((printed template).filter (·.root == name)).map .printed ++
    (((looped template).filter (· == name)).map .looped ++
    (((entriesLooped template).filter (· == name)).map .entriesLooped ++
    (((tested template).filter (·.root == name)).map .tested ++
    ((indexed template).filter (·.base.root == name)).map .indexed)))) := by
  have huses : (Pass.all.take 6).flatMap (Pass.uses template) =
      (assigned template).map .assigned ++ ((printed template).map .printed ++
      ((looped template).map .looped ++ ((entriesLooped template).map .entriesLooped ++
      ((tested template).map .tested ++ (indexed template).map .indexed)))) := by
    simp only [Pass.all, List.take, List.flatMap_cons, List.flatMap_nil, List.append_nil,
      uses_condition, looped, List.map_map]
    rfl
  rw [Pass.usesOf, huses]
  simp only [List.filter_append, List.filter_map]
  rfl

theorem usesOf_loopItems : Pass.usesOf [.loopItems] template name =
    ((loops template).filter (·.header.list == name)).map itemsOf := by
  rw [Pass.usesOf, List.flatMap_singleton, Pass.uses, List.filter_map]
  rfl

theorem usesOf_all : Pass.usesOf Pass.all template name =
    Pass.usesOf (Pass.all.take 6) template name ++ Pass.usesOf [.loopItems] template name := by
  rw [Pass.usesOf, Pass.usesOf, Pass.usesOf, ← List.filter_append, ← List.flatMap_append]
  rfl

def Shows (template : List Char) : Finding → Prop
  | .assigned path => path ∈ assigned template
  | .printed path => path ∈ printed template
  | .looped list => list ∈ looped template
  | .entriesLooped mapping => mapping ∈ entriesLooped template
  | .tested path => path ∈ tested template
  | .indexed path => path ∈ indexed template
  | .itemsPrinted list fields =>
      ∃ loop ∈ loops template, loop.header.list = list ∧ loop.fields = fields

/-- The passes see exactly the uses that the template shows. -/
theorem mem_usesOf_all_iff (finding : Finding) :
    finding ∈ Pass.usesOf Pass.all template name ↔
      Shows template finding ∧ finding.root = name := by
  rw [usesOf_all, usesOf_take_six, usesOf_loopItems]
  cases finding with
  | itemsPrinted list fields =>
      simp only [List.mem_append, List.mem_map, List.mem_filter, itemsOf, Shows, Finding.root,
        reduceCtorEq, and_false, exists_false, false_or, Finding.itemsPrinted.injEq, beq_iff_eq]
      constructor
      · rintro ⟨loop, ⟨hmem, rfl⟩, rfl, rfl⟩
        exact ⟨⟨loop, hmem, rfl, rfl⟩, rfl⟩
      · rintro ⟨⟨loop, hmem, rfl, rfl⟩, rfl⟩
        exact ⟨loop, ⟨hmem, rfl⟩, rfl, rfl⟩
  | _ => simp [Shows, Finding.root, itemsOf]

end Template

end TemplateShape
