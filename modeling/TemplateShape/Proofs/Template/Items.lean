import TemplateShape.Proofs.Template.Growth
import TemplateShape.Proofs.Template.Uses

/-! # What the bodies of loops show

The last pass decides once for each list. The first loop whose body prints fields of the items
gives the sample, if nothing is known of the items so far; later loops find an array of objects and
leave it alone. -/

namespace TemplateShape

open Finding Template

/-! ## One row -/

def Shape.withItems (shape : Shape) (loops : List Tag.Loop) : Shape :=
  if shape.isPlain || shape.isPlainList then
    match loops.find? fun loop => !loop.fields.isEmpty with
    | some loop => sampleItems loop.fields
    | none => shape
  else shape

namespace Shape

theorem withItems_nil (shape : Shape) : shape.withItems [] = shape := by
  rw [withItems]
  split <;> rfl

theorem withItems_of_not {shape : Shape} (h : (shape.isPlain || shape.isPlainList) = false)
    (loops : List Tag.Loop) : shape.withItems loops = shape := by
  rw [withItems, h]
  rfl

/-- What is not the shape from before is the sample of one of the loops. -/
theorem withItems_eq_or (shape : Shape) (loops : List Tag.Loop) :
    shape.withItems loops = shape ∨
      (shape.isPlain || shape.isPlainList) = true ∧
        ∃ loop ∈ loops, loop.fields ≠ [] ∧ shape.withItems loops = sampleItems loop.fields := by
  rw [withItems]
  split
  · rename_i hopen
    cases hfind : loops.find? fun loop => !loop.fields.isEmpty with
    | none => exact .inl rfl
    | some loop =>
        refine .inr ⟨hopen, loop, List.mem_of_find?_eq_some hfind, ?_, rfl⟩
        simpa using List.find?_some hfind
  · exact .inl rfl

end Shape

def Template.loopsOver (template : List Char) (name : String) : List Tag.Loop :=
  (loops template).filter (·.header.list == name)

theorem Finding.foldl_onRow_itemsOf (settings : Settings) (loops : List Tag.Loop) (shape : Shape) :
    (loops.map itemsOf).foldl (onRow settings) (some shape) = some (shape.withItems loops) := by
  induction loops generalizing shape with
  | nil => rw [List.map_nil, List.foldl_nil, Shape.withItems_nil]
  | cons loop rest ih =>
      rw [List.map_cons, List.foldl_cons, itemsOf, onRow_itemsPrinted]
      cases hempty : loop.fields.isEmpty with
      | true =>
          rw [if_pos rfl, ih, Shape.withItems, Shape.withItems, List.find?_cons, hempty]
          rfl
      | false =>
          rw [if_neg Bool.false_ne_true, ih, Outline.learned, Policy.replaces]
          cases hopen : shape.isPlain || shape.isPlainList with
          | true =>
              rw [if_pos rfl, Shape.withItems_of_not rfl, Shape.withItems, if_pos hopen,
                List.find?_cons, hempty]
              rfl
          | false =>
              rw [if_neg Bool.false_ne_true, Shape.withItems_of_not hopen,
                Shape.withItems_of_not hopen]

/-! ## The last pass -/

namespace Template

def beforeItems (settings : Settings) (template : List Char) (name : String) : Option Shape :=
  (Draft.ofTemplate settings (Pass.all.take 6) template).outline.find? name

theorem isItems_of_mem_usesOf_take_six {template : List Char} {name : String} {finding : Finding}
    (h : finding ∈ Pass.usesOf (Pass.all.take 6) template name) : finding.isItems = false := by
  obtain ⟨pass, hpass, hmem⟩ := List.mem_flatMap.mp (List.mem_filter.mp h).1
  refine Pass.isItems_of_mem_uses ?_ hmem
  rintro rfl
  exact absurd hpass (by decide)

theorem mem_usesOf_take_six_iff {template : List Char} {name : String} {finding : Finding} :
    finding ∈ Pass.usesOf (Pass.all.take 6) template name ↔
      Shows template finding ∧ finding.root = name ∧ finding.isItems = false := by
  constructor
  · intro h
    have hall : finding ∈ Pass.usesOf Pass.all template name := by
      rw [usesOf_all]
      exact List.mem_append_left _ h
    obtain ⟨hshows, hroot⟩ := (mem_usesOf_all_iff template name finding).mp hall
    exact ⟨hshows, hroot, isItems_of_mem_usesOf_take_six h⟩
  · rintro ⟨hshows, hroot, hitems⟩
    have hall := (mem_usesOf_all_iff template name finding).mpr ⟨hshows, hroot⟩
    rw [usesOf_all, usesOf_loopItems] at hall
    refine (List.mem_append.mp hall).resolve_right ?_
    intro hmem
    obtain ⟨loop, -, rfl⟩ := List.mem_map.mp hmem
    cases hitems

theorem beforeItems_eq {settings : Settings} {template : List Char} {name : String}
    (h : settings.ignores name = false) :
    beforeItems settings template name =
      (Pass.usesOf (Pass.all.take 6) template name).foldl (onRow settings) none := by
  rw [beforeItems, Draft.find?_ofTemplate, h]
  rfl

/-- What one use of a variable brings about holds before the last pass, if growth cannot undo
it. -/
theorem beforeItems_of_shows {settings : Settings} {template : List Char} {finding : Finding}
    {holds : Shape → Prop}
    (hgrows : ∀ before after, before.Grows after → holds before → holds after)
    (h : Shows template finding) (hitems : finding.isItems = false)
    (hignores : settings.ignores finding.root = false)
    (hfinding : ∀ row, ∃ shape, finding.onRow settings row = some shape ∧ holds shape) :
    ∃ shape, beforeItems settings template finding.root = some shape ∧ holds shape := by
  rw [beforeItems_eq hignores]
  exact foldl_onRow_of_mem hgrows (fun _ => isItems_of_mem_usesOf_take_six)
    (mem_usesOf_take_six_iff.mpr ⟨h, rfl, hitems⟩) hfinding none

theorem isSome_beforeItems {settings : Settings} {template : List Char} {finding : Finding}
    (h : Shows template finding) (hitems : finding.isItems = false)
    (hignores : settings.ignores finding.root = false) :
    (beforeItems settings template finding.root).isSome := by
  have hrow : ∀ row, ∃ shape, finding.onRow settings row = some shape ∧ True := by
    intro row
    obtain ⟨shape, hshape⟩ := Option.isSome_iff_exists.mp (isSome_onRow settings hitems row)
    exact ⟨shape, hshape, trivial⟩
  obtain ⟨shape, hshape, -⟩ := beforeItems_of_shows (fun _ _ _ => id) h hitems hignores hrow
  rw [hshape]
  rfl

theorem loopsOver_eq_nil {settings : Settings} {template : List Char} {name : String}
    (hignores : settings.ignores name = false) (h : beforeItems settings template name = none) :
    loopsOver template name = [] := by
  apply filter_loops_eq_nil
  intro hlooped
  have hshows : Shows template (.looped name) := hlooped
  have hsome := isSome_beforeItems hshows rfl hignores
  rw [Finding.root, h] at hsome
  cases hsome

end Template

/-- The last pass adds no row, and to the rows there are it does what the loops over them ask
for. -/
theorem Outline.find?_ofTemplate_eq_withItems (settings : Settings) (template name : String) :
    (Outline.ofTemplate settings template).find? name =
      (beforeItems settings template.toList name).map
        (·.withItems (loopsOver template.toList name)) := by
  cases hignores : settings.ignores name with
  | true => rw [find?_ofTemplate, beforeItems, Draft.find?_ofTemplate, hignores]; rfl
  | false =>
      rw [find?_ofTemplate, hignores, usesOf_all, List.foldl_append, ← beforeItems_eq hignores,
        usesOf_loopItems]
      cases hbefore : beforeItems settings template.toList name with
      | some shape => exact foldl_onRow_itemsOf settings _ shape
      | none =>
          have hloops := loopsOver_eq_nil hignores hbefore
          rw [loopsOver] at hloops
          rw [hloops]
          rfl

end TemplateShape
