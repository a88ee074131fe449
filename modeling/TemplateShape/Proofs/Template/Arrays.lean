import TemplateShape.Proofs.Template.Items

/-! # What arrays hold

Writes fill an array with `""`, and no path goes on behind an index. So items of another kind come
only from the sample of a loop, and that is the whole value of a variable. -/

namespace TemplateShape

/-! ## Shapes -/

namespace Shape

/-- Every array in a shape holds nothing but `""`. -/
def Unfilled (shape : Shape) : Prop :=
  ∀ path items, shape.get? path = some (.array items) → ∀ item ∈ items, item = printed

theorem Unfilled.of_child? {shape : Shape}
    (hitems : ∀ items, shape = .array items → ∀ item ∈ items, item = printed)
    (hparts : ∀ step part, child? step shape = some part → part.Unfilled) : shape.Unfilled := by
  intro path items hpath
  cases path with
  | nil => exact hitems items (Option.some.inj hpath)
  | cons step rest =>
      obtain ⟨part, hpart, hrest⟩ := Option.bind_eq_some_iff.mp hpath
      exact hparts step part hpart rest items hrest

theorem Unfilled.child? {shape part : Shape} {step : Step} (h : shape.Unfilled)
    (hpart : Shape.child? step shape = some part) : part.Unfilled := by
  intro path items hpath
  refine h (step :: path) items ?_
  rw [get?_cons, hpart]
  exact hpath

theorem Unfilled.of_isPlain {shape : Shape} (h : shape.isPlain = true) : shape.Unfilled := by
  intro path items hpath
  obtain ⟨-, rfl⟩ := get?_of_isPlain h hpath
  cases h

theorem unfilled_array {items : List Shape} (h : ∀ item ∈ items, item = printed) :
    (array items).Unfilled := by
  refine .of_child? (fun _ heq => by cases heq; exact h) ?_
  intro step part hpart
  cases step with
  | key name => cases hpart
  | index i => exact .of_isPlain (h part (List.mem_of_getElem? hpart) ▸ isPlain_printed)

theorem unfilled_object_nil : (object []).Unfilled :=
  .of_child? nofun nofun

theorem unfilled_freshPlace (rest : List Step) : (freshPlace rest).Unfilled := by
  cases rest with
  | nil => exact .of_isPlain isPlain_printed
  | cons step rest =>
      cases step with
      | key name => exact unfilled_object_nil
      | index i => exact unfilled_array nofun

theorem Unfilled.alter {fields : Fields Shape} (h : (object fields).Unfilled) (name : String)
    (rest : List Step) {f : Shape → Shape}
    (hf : ∀ part : Shape, part.Unfilled → (f part).Unfilled) :
    (object (Fields.alter name (freshPlace rest) f fields)).Unfilled := by
  refine .of_child? nofun ?_
  intro step part hpart
  cases step with
  | index i => cases hpart
  | key key =>
      rw [child?_key_object, Fields.find?_alter] at hpart
      split at hpart
      · obtain rfl := Option.some.inj hpart
        cases hfind : Fields.find? fields name with
        | none => exact hf _ (unfilled_freshPlace rest)
        | some old =>
            have hold : Shape.child? (.key name) (object fields) = some old := hfind
            exact hf old (h.child? hold)
      · have hold : Shape.child? (.key key) (object fields) = some part := hpart
        exact h.child? hold

theorem Unfilled.put_nil {shape leaf : Shape} (h : shape.Unfilled) (hleaf : leaf.isPlain = true) :
    (shape.put [] leaf).Unfilled := by
  rw [Shape.put_nil, replaced]
  split
  · exact h
  · exact .of_isPlain hleaf

theorem Unfilled.fields {shape : Shape} (h : shape.Unfilled) :
    (object (shape.fields?.getD [])).Unfilled := by
  cases shape with
  | object fields => exact h
  | _ => exact unfilled_object_nil

theorem Unfilled.items {shape : Shape} (h : shape.Unfilled) :
    ∀ item ∈ shape.items?.getD [], item = printed := by
  cases shape with
  | array items => exact h [] items rfl
  | _ => exact nofun

theorem Unfilled.put_index {shape : Shape} (h : shape.Unfilled) (i : Nat) :
    (shape.put [.index i] printed).Unfilled := by
  rcases put_cases shape (.index i) [] printed with hput | ⟨j, -, hput⟩ | ⟨⟨name, hkey⟩, -⟩
  · rw [hput]
    exact h.fields.alter _ [] fun part hpart => hpart.put_nil isPlain_printed
  · rw [hput]
    refine unfilled_array (forall_mem_rightpad_modify h.items rfl ?_ j)
    rintro item rfl
    rfl
  · cases hkey

/-- Writing along names keeps arrays as they are, if what is written at their end does. -/
theorem Unfilled.put_keys {leaf : Shape} {further : List Step}
    (hend : ∀ part : Shape, part.Unfilled → (part.put further leaf).Unfilled) {shape : Shape}
    (h : shape.Unfilled) (names : List String) :
    (shape.put (names.map .key ++ further) leaf).Unfilled := by
  induction names generalizing shape with
  | nil => exact hend shape h
  | cons name rest ih =>
      rw [List.map_cons, List.cons_append]
      rcases put_cases shape (.key name) (rest.map .key ++ further) leaf with
        hput | ⟨i, hindex, -⟩ | ⟨-, items, rfl, hput⟩
      · rw [hput]
        exact h.fields.alter name _ fun part hpart => ih hpart
      · cases hindex
      · rw [hput]
        exact h

end Shape

/-! ## Rows -/

namespace Finding

open Shape

def RowUnfilled (row : Option Shape) : Prop :=
  ∀ shape, row = some shape → shape.Unfilled

theorem RowUnfilled.learned {row : Option Shape} (h : RowUnfilled row) {shape : Shape}
    (hshape : shape.Unfilled) (policy : Policy) :
    (Outline.learned policy shape row).Unfilled := by
  cases row with
  | none => exact hshape
  | some existing =>
      rw [Outline.learned]
      split
      · exact hshape
      · exact h existing rfl

theorem child?_sampleObject {entries : List (String × String)} {step : Step} {part : Shape}
    (h : child? step (sampleObject entries) = some part) :
    (∃ key ∈ entries.map Prod.fst, step = .key key) ∧ part.isPlain = true := by
  cases step with
  | index i => cases h
  | key key =>
      obtain ⟨entry, hentry, heq⟩ := List.mem_map.mp (Fields.mem_of_find?_ofList h)
      obtain ⟨rfl, rfl⟩ := Prod.mk.inj heq
      exact ⟨⟨entry.1, List.mem_map_of_mem hentry, rfl⟩, rfl⟩

theorem unfilled_sampleObject (entries : List (String × String)) :
    (sampleObject entries).Unfilled :=
  .of_child? nofun fun _ _ hpart => .of_isPlain (child?_sampleObject hpart).2

theorem RowUnfilled.writeAt {path : NamePath} {further : List Step} {shape leaf : Shape}
    (h : shape.Unfilled) (hend : ∀ part : Shape, part.Unfilled → (part.put further leaf).Unfilled) :
    RowUnfilled ((Finding.writeAt path further leaf).onRow (some shape)) := by
  by_cases hdepth : path.depth ≤ depthLimit
  · rw [onRow_writeAt hdepth]
    rintro _ ⟨⟩
    exact h.put_keys hend path.rest
  · rw [Finding.writeAt, if_neg hdepth]
    rintro _ ⟨⟩
    exact h

theorem RowUnfilled.editsOfPath {row : Option Shape} (h : RowUnfilled row) {leaf : Shape}
    (hleaf : leaf.isPlain = true) (policy : Policy) (path : NamePath) :
    RowUnfilled ((Finding.editsOfPath policy path leaf).foldl Edit.onRow row) := by
  cases hbare : path.isBare with
  | true =>
      rw [foldl_editsOfPath_bare hbare]
      rintro _ ⟨⟩
      exact h.learned (.of_isPlain hleaf) .keep
  | false =>
      rw [foldl_editsOfPath_dotted hbare]
      exact .writeAt (h.learned unfilled_object_nil policy) fun part hpart => hpart.put_nil hleaf

theorem RowUnfilled.onRow {row : Option Shape} (h : RowUnfilled row) (settings : Settings)
    {finding : Finding} (hitems : finding.isItems = false) :
    RowUnfilled (finding.onRow settings row) := by
  cases finding with
  | assigned path => exact h.editsOfPath isPlain_printed .keep path
  | printed path => exact h.editsOfPath isPlain_printed .upgrade path
  | looped list =>
      rintro _ ⟨⟩
      exact h.learned (unfilled_array fun item hitem => List.mem_singleton.mp hitem) .upgrade
  | entriesLooped mapping =>
      rintro _ ⟨⟩
      exact h.learned (unfilled_sampleObject settings.entrySample) .upgrade
  | tested path =>
      rw [onRow_tested]
      exact h.editsOfPath isPlain_tested .upgrade path
  | indexed path =>
      have hseed : (if path.base.isBare then Shape.array [] else .object []).Unfilled := by
        split
        · exact unfilled_array nofun
        · exact unfilled_object_nil
      by_cases hindex : path.index ≤ settings.indexLimit
      · rw [Finding.onRow, edits, if_pos hindex]
        exact .writeAt (h.learned hseed .upgrade) fun part hpart => hpart.put_index path.index
      · rw [Finding.onRow, edits, if_neg hindex]
        rintro _ ⟨⟩
        exact h.learned hseed .upgrade
  | itemsPrinted list fields => cases hitems

theorem RowUnfilled.foldl_onRow {row : Option Shape} (h : RowUnfilled row) (settings : Settings)
    {findings : List Finding} (hitems : ∀ finding ∈ findings, finding.isItems = false) :
    RowUnfilled (findings.foldl (Finding.onRow settings) row) :=
  List.foldlRecOn findings (Finding.onRow settings) h fun _ hafter finding hmem =>
    hafter.onRow settings (hitems finding hmem)

theorem unfilled_of_child?_sampleItems {fields : List String} {step : Step} {part : Shape}
    (h : child? step (sampleItems fields) = some part) : part.Unfilled := by
  cases step with
  | key name => cases h
  | index i =>
      have hmem := List.mem_of_getElem? h
      have hpart : part = .object (fields.map fun field => (field, Shape.printed)) := by
        simpa using hmem
      rw [hpart]
      refine .of_child? nofun ?_
      intro step leaf hleaf
      cases step with
      | index j => cases hleaf
      | key name =>
          obtain ⟨field, -, heq⟩ := List.mem_map.mp (Fields.mem_of_find? hleaf)
          obtain ⟨-, rfl⟩ := Prod.mk.inj heq
          exact .of_isPlain isPlain_printed

end Finding

/-! ## Outlines -/

namespace Template

open Finding

theorem unfilled_beforeItems (settings : Settings) (template : List Char) (name : String) :
    RowUnfilled (beforeItems settings template name) := by
  have hnone : RowUnfilled none := fun shape h => by cases h
  rw [beforeItems, Draft.find?_ofTemplate]
  split
  · exact hnone
  · exact hnone.foldl_onRow settings fun _ => isItems_of_mem_usesOf_take_six

/-- An array below a variable holds nothing but `""`. -/
theorem eq_printed_of_get?_below {settings : Settings} {template root : String} {path : List Step}
    {items : List Shape} (hpath : path ≠ [])
    (h : (Outline.ofTemplate settings template).get? (.key root :: path) = some (.array items)) :
    ∀ item ∈ items, item = Shape.printed := by
  obtain ⟨shape, hshape, hpart⟩ := Option.bind_eq_some_iff.mp h
  rw [Outline.find?_ofTemplate_eq_withItems] at hshape
  obtain ⟨before, hbefore, rfl⟩ := Option.map_eq_some_iff.mp hshape
  have hunfilled := unfilled_beforeItems settings template.toList root before hbefore
  rcases Shape.withItems_eq_or before (loopsOver template.toList root) with
    heq | ⟨-, loop, -, -, heq⟩
  · rw [heq] at hpart
    exact hunfilled path items hpart
  · rw [heq] at hpart
    cases path with
    | nil => exact absurd rfl hpath
    | cons step rest =>
        obtain ⟨part, hchild, hrest⟩ := Option.bind_eq_some_iff.mp hpart
        exact unfilled_of_child?_sampleItems hchild rest items hrest

end Template

end TemplateShape
