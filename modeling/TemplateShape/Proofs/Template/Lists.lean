import TemplateShape.Proofs.Template.Append
import TemplateShape.Proofs.Template.Arrays
import TemplateShape.Proofs.Template.Exchange

/-! # What a list holds

The array of a variable holds the sample of the first loop that prints fields of its items. Without
such a loop it holds `""` as often as its uses ask for: a header of a loop asks for one item, and a
printed item for all items up to its own. -/

namespace TemplateShape

open Shape

/-! ## Arrays from names -/

namespace Outline

theorem row_eq_of_learned {policy : Policy} {shape : Shape} {row : Option Shape}
    {items : List Shape} (hshape : shape.kind ≠ .array)
    (h : learned policy shape row = .array items) : row = some (.array items) := by
  rcases learned_eq_or policy shape row with hnew | hold
  · exact absurd (congrArg kind (hnew.symm.trans h)) hshape
  · rw [hold, h]

end Outline

namespace Finding

variable (settings : Settings)

theorem eq_array_of_writeAt {path : NamePath} (hbare : path.isBare = false) {further : List Step}
    {leaf shape : Shape} {items : List Shape}
    (h : (writeAt path further leaf).onRow (some shape) = some (.array items)) :
    shape = .array items := by
  by_cases hdepth : path.depth ≤ depthLimit
  · rw [onRow_writeAt hdepth, NamePath.below] at h
    have hput : shape.put (path.rest.map .key ++ further) leaf = .array items := Option.some.inj h
    cases hrest : path.rest with
    | nil => simp [NamePath.isBare, hrest] at hbare
    | cons name names =>
        rw [hrest, List.map_cons, List.cons_append] at hput
        by_cases harray : shape.kind = .array
        · rwa [put_key_of_array harray] at hput
        · simp [put_key_of_not_array harray] at hput
  · rw [writeAt, if_neg hdepth] at h
    exact Option.some.inj h

theorem row_eq_of_editsOfPath {policy : Policy} {path : NamePath} {leaf : Shape}
    (hleaf : leaf.isPlain = true) {row : Option Shape} {items : List Shape}
    (h : (editsOfPath policy path leaf).foldl Edit.onRow row = some (.array items)) :
    row = some (.array items) := by
  cases hbare : path.isBare with
  | true =>
      rw [foldl_editsOfPath_bare hbare] at h
      apply Outline.row_eq_of_learned _ (Option.some.inj h)
      intro hkind
      cases leaf <;> simp [isPlain, kind] at hleaf hkind
  | false =>
      rw [foldl_editsOfPath_dotted hbare] at h
      exact Outline.row_eq_of_learned (by simp [kind]) (eq_array_of_writeAt hbare h)

/-- Before the pass over printed items an array comes from the header of a loop alone, and it has
one item. -/
theorem row_eq_of_onRow {finding : Finding} (hindexed : finding.pass ≠ .itemAccess)
    (hitems : finding.isItems = false) {row : Option Shape} {items : List Shape}
    (h : finding.onRow settings row = some (.array items)) :
    row = some (.array items) ∨ finding = .looped finding.root ∧ items = [Shape.printed] := by
  cases finding with
  | assigned path => exact .inl (row_eq_of_editsOfPath isPlain_printed h)
  | printed path => exact .inl (row_eq_of_editsOfPath isPlain_printed h)
  | looped list =>
      have hlearned : Outline.learned .upgrade (.array [Shape.printed]) row = .array items :=
        Option.some.inj h
      rcases Outline.learned_eq_or .upgrade (.array [Shape.printed]) row with hnew | hold
      · have hvalue : Shape.array [Shape.printed] = .array items := hnew.symm.trans hlearned
        exact .inr ⟨rfl, (Shape.array.inj hvalue).symm⟩
      · exact .inl (by rw [hold, hlearned])
  | entriesLooped mapping =>
      exact .inl (Outline.row_eq_of_learned (by simp [sampleObject, kind]) (Option.some.inj h))
  | tested path =>
      rw [onRow_tested] at h
      exact .inl (row_eq_of_editsOfPath isPlain_tested h)
  | indexed path => exact absurd rfl hindexed
  | itemsPrinted list fields => simp [isItems] at hitems

theorem row_eq_of_foldl_onRow {findings : List Finding}
    (hindexed : ∀ finding ∈ findings, finding.pass ≠ .itemAccess)
    (hitems : ∀ finding ∈ findings, finding.isItems = false) {row : Option Shape}
    {items : List Shape} (h : findings.foldl (onRow settings) row = some (.array items)) :
    row = some (.array items) ∨
      (∃ finding ∈ findings, finding = .looped finding.root) ∧ items = [Shape.printed] := by
  induction findings generalizing row with
  | nil => exact .inl h
  | cons finding rest ih =>
      have hrest := ih (fun use huse => hindexed use (by simp [huse]))
        (fun use huse => hitems use (by simp [huse])) h
      rcases hrest with hrow | ⟨⟨use, huse, hlooped⟩, hvalue⟩
      · rcases row_eq_of_onRow settings (hindexed finding (by simp)) (hitems finding (by simp))
          hrow with hbefore | ⟨hlooped, hvalue⟩
        · exact .inl hbefore
        · exact .inr ⟨⟨finding, by simp, hlooped⟩, hvalue⟩
      · exact .inr ⟨⟨use, by simp [huse], hlooped⟩, hvalue⟩

/-! ## Arrays from printed items -/

def itemCount (row : Option Shape) : Nat :=
  ((row.bind Shape.items?).getD []).length

/-- A printed item of the variable itself that an array is filled up to. -/
def fills (path : Tag.IndexedPath) : Bool :=
  path.base.isBare && path.index ≤ settings.indexLimit

theorem itemCount_learned {shape : Shape} (h : shape.items?.getD [] = []) (row : Option Shape) :
    itemCount (some (Outline.learned .upgrade shape row)) = itemCount row := by
  cases row with
  | none => simp [itemCount, Outline.learned, h]
  | some existing =>
      rw [Outline.learned_upgrade_some]
      split
      · rename_i hyields
        have hplain : existing.isPlain = true := (Bool.and_eq_true_iff.mp hyields).1
        have hnone : existing.items? = none := by
          cases existing <;> simp [isPlain] at hplain <;> rfl
        simp [itemCount, h, hnone]
      · rfl

theorem length_put_index {shape : Shape} {i : Nat} {items : List Shape}
    (h : shape.put [.index i] Shape.printed = .array items) :
    items.length = max (itemCount (some shape)) (i + 1) := by
  rcases put_cases shape (.index i) [] Shape.printed with
    hput | ⟨j, hindex, hput⟩ | ⟨⟨name, hkey⟩, -⟩
  · simp [hput] at h
  · have hsame : i = j := Step.index.inj hindex
    subst hsame
    have hitems := Shape.array.inj (hput.symm.trans h)
    rw [← hitems, length_rightpad_modify]
    rfl
  · simp at hkey

theorem length_onRow_indexed {path : Tag.IndexedPath} {row : Option Shape} {items : List Shape}
    (h : onRow settings row (.indexed path) = some (.array items)) :
    items.length =
      if fills settings path then max (itemCount row) (path.index + 1) else itemCount row := by
  have hseed : (if path.base.isBare then Shape.array [] else .object []).items?.getD [] = [] := by
    split <;> rfl
  rw [← itemCount_learned hseed row]
  by_cases hindex : path.index ≤ settings.indexLimit
  · cases hbare : path.base.isBare with
    | true =>
        have hrest : path.base.rest = [] := List.isEmpty_iff.mp hbare
        have hdepth : path.base.depth ≤ depthLimit := by simp [NamePath.depth, hrest, depthLimit]
        rw [onRow_indexed hindex hdepth, NamePath.below, hrest, hbare] at h
        rw [if_pos (by simp [fills, hbare, hindex])]
        exact length_put_index (Option.some.inj h)
    | false =>
        rw [onRow, edits, if_pos hindex, hbare] at h
        rw [if_neg (by simp [fills, hbare])]
        rw [eq_array_of_writeAt hbare h]
        rfl
  · rw [onRow, edits, if_neg hindex] at h
    rw [if_neg (by simp [fills, hindex])]
    have hlearned := Option.some.inj h
    rw [hlearned]
    rfl

/-- A container that a run turns into an array is one. -/
theorem exists_array_of_foldl_onRow {row : Option Shape} (hrow : row.any isContainer = true)
    {findings : List Finding} (hitems : ∀ finding ∈ findings, finding.isItems = false)
    {items : List Shape} (h : findings.foldl (onRow settings) row = some (.array items)) :
    ∃ earlier, row = some (.array earlier) := by
  rcases (Option.any_eq_true ..).mp hrow with ⟨shape, hshape, hcontainer⟩
  rcases foldl_onRow_grows settings hitems row shape hshape with ⟨later, hlater, hgrows⟩
  have hplain : shape.isPlain = false := by simpa [isContainer] using hcontainer
  have hkind := hgrows.kind_eq hplain
  rw [h] at hlater
  rw [← Option.some.inj hlater] at hkind
  cases shape with
  | array earlier => exact ⟨earlier, hshape⟩
  | object fields => simp [kind] at hkind
  | text value => simp [kind] at hkind
  | flag value => simp [kind] at hkind

/-- Behind the pass over assignments one use leaves a container if there was one or it asks for
one. -/
theorem any_isContainer_onRow {finding : Finding} (h : ∀ path, finding ≠ .assigned path)
    (row : Option Shape) :
    (onRow settings row finding).any isContainer =
      (row.any isContainer || finding.suggests.any Kind.isContainer) := by
  have hassigned : ∀ path, .assigned path ∉ [finding] := by
    intro path hmem
    exact h path (List.mem_singleton.mp hmem).symm
  have hany := any_isContainer_foldl_onRow settings hassigned row
  rw [List.foldl_cons, List.foldl_nil] at hany
  rw [hany]
  cases hsuggests : finding.suggests <;> simp [hsuggests]

theorem any_isContainer_onRow_indexed (path : Tag.IndexedPath) (row : Option Shape) :
    (onRow settings row (.indexed path)).any isContainer = true := by
  rw [any_isContainer_onRow settings (by simp)]
  cases hbare : path.base.isBare <;> simp [suggests, hbare, Kind.isContainer]

theorem exists_container_onRow_looped (list : String) (row : Option Shape) :
    ∃ shape, onRow settings row (.looped list) = some shape ∧ shape.isContainer = true := by
  apply (Option.any_eq_true ..).mp
  rw [any_isContainer_onRow settings (by simp)]
  simp [suggests, Kind.isContainer]

theorem isItems_of_mem_map_indexed (paths : List Tag.IndexedPath) :
    ∀ finding ∈ paths.map Finding.indexed, finding.isItems = false := by
  intro finding hfinding
  rcases List.mem_map.mp hfinding with ⟨path, -, hpath⟩
  rw [← hpath]
  rfl

/-- Printed items fill an array up to the last of them. -/
theorem length_foldl_onRow_indexed {paths : List Tag.IndexedPath} {row : Option Shape}
    {items : List Shape}
    (h : (paths.map .indexed).foldl (onRow settings) row = some (.array items)) :
    items.length =
      ((paths.filter (fills settings)).map (·.index + 1)).foldl max (itemCount row) := by
  induction paths generalizing row with
  | nil =>
      have hrow : row = some (.array items) := h
      rw [hrow]
      rfl
  | cons path rest ih =>
      rw [List.map_cons, List.foldl_cons] at h
      rcases exists_array_of_foldl_onRow settings (any_isContainer_onRow_indexed settings path row)
        (isItems_of_mem_map_indexed rest) h with ⟨earlier, hearlier⟩
      have hstep := length_onRow_indexed settings hearlier
      have hcount : itemCount (onRow settings row (.indexed path)) = earlier.length := by
        rw [hearlier]
        rfl
      rw [ih h, hcount, hstep]
      cases hfills : fills settings path <;> simp [hfills]

end Finding

/-! ## Lists of a template -/

namespace Template

open Finding

/-- The number of items that the uses of a variable ask for. -/
def listLength (settings : Settings) (template : List Char) (root : String) : Nat :=
  (((indexed template).filter fun path =>
      path.base = .bare root ∧ Decimal.ofDigits path.digits ≤ settings.indexLimit).map
        (Decimal.ofDigits ·.digits + 1)).foldl max (if root ∈ looped template then 1 else 0)

variable {settings : Settings} {template : List Char} {root : String}

theorem filter_fills (paths : List Tag.IndexedPath) :
    (paths.filter (·.base.root == root)).filter (fills settings) =
      paths.filter fun path => path.base = .bare root ∧ path.index ≤ settings.indexLimit := by
  rw [List.filter_filter]
  apply List.filter_congr
  intro path _
  rcases path with ⟨⟨name, rest⟩, digits⟩
  by_cases hname : name = root
  · cases rest <;> simp [fills, NamePath.isBare, NamePath.bare, hname]
  · simp [NamePath.bare, hname]

theorem pass_mem_of_mem_usesOf {passes : List Pass} {use : Finding}
    (h : use ∈ Pass.usesOf passes template root) : use.pass ∈ passes := by
  rcases List.mem_flatMap.mp (List.mem_filter.mp h).1 with ⟨pass, hpass, hmem⟩
  rw [Pass.pass_of_mem_uses hmem]
  exact hpass

theorem usesOf_take_six_eq (template : List Char) (root : String) :
    Pass.usesOf (Pass.all.take 6) template root =
      Pass.usesOf (Pass.all.take 5) template root ++
        ((indexed template).filter (·.base.root == root)).map .indexed := by
  have hlast : Pass.usesOf [.itemAccess] template root =
      ((indexed template).filter (·.base.root == root)).map .indexed := by
    rw [Pass.usesOf, List.flatMap_singleton, Pass.uses, List.filter_map]
    rfl
  rw [← hlast, ← Pass.usesOf_append]
  rfl

theorem looped_mem_usesOf_iff :
    .looped root ∈ Pass.usesOf (Pass.all.take 5) template root ↔ root ∈ looped template := by
  have hall : .looped root ∈ Pass.usesOf (Pass.all.take 6) template root ↔
      Shows template (.looped root) ∧ (Finding.looped root).root = root ∧
        (Finding.looped root).isItems = false := mem_usesOf_take_six_iff
  rw [usesOf_take_six_eq] at hall
  simpa [Shows, Finding.root, isItems] using hall

/-- Before the pass over printed items an array has one item, and it is there because of a loop. -/
theorem itemCount_take_five {items : List Shape}
    (h : (Pass.usesOf (Pass.all.take 6) template root).foldl (onRow settings) none =
      some (.array items)) :
    itemCount ((Pass.usesOf (Pass.all.take 5) template root).foldl (onRow settings) none) =
      if root ∈ looped template then 1 else 0 := by
  have hindexed : ∀ use ∈ Pass.usesOf (Pass.all.take 5) template root, use.pass ≠ .itemAccess := by
    intro use huse hpass
    have hmem := pass_mem_of_mem_usesOf huse
    rw [hpass] at hmem
    exact absurd hmem (by decide)
  have hitems : ∀ use ∈ Pass.usesOf (Pass.all.take 5) template root, use.isItems = false := by
    intro use huse
    have hmem : use ∈ Pass.usesOf (Pass.all.take 6) template root := by
      rw [usesOf_take_six_eq]
      exact List.mem_append_left _ huse
    exact isItems_of_mem_usesOf_take_six hmem
  rw [usesOf_take_six_eq, List.foldl_append] at h
  by_cases hlooped : root ∈ looped template
  · rw [if_pos hlooped]
    have hcontainer := foldl_onRow_of_mem (fun _ _ hgrows => Lasts.isContainer (.inl hgrows)) hitems
      (looped_mem_usesOf_iff.mpr hlooped) (exists_container_onRow_looped settings root) none
    rcases exists_array_of_foldl_onRow settings ((Option.any_eq_true ..).mpr hcontainer)
      (isItems_of_mem_map_indexed _) h with ⟨earlier, hearlier⟩
    rcases row_eq_of_foldl_onRow settings hindexed hitems hearlier with hnone | ⟨-, hvalue⟩
    · simp at hnone
    · rw [hearlier, hvalue]
      rfl
  · rw [if_neg hlooped]
    cases hrow : (Pass.usesOf (Pass.all.take 5) template root).foldl (onRow settings) none with
    | none => rfl
    | some shape =>
        cases shape with
        | array earlier =>
            rcases row_eq_of_foldl_onRow settings hindexed hitems hrow with
              hnone | ⟨⟨use, huse, hvalue⟩, -⟩
            · simp at hnone
            · have hroot : use.root = root := by simpa using (List.mem_filter.mp huse).2
              rw [hvalue, hroot] at huse
              exact absurd (looped_mem_usesOf_iff.mp huse) hlooped
        | object fields => rfl
        | text value => rfl
        | flag value => rfl

theorem length_beforeItems {items : List Shape} (hignores : settings.ignores root = false)
    (h : beforeItems settings template root = some (.array items)) :
    items.length = listLength settings template root := by
  rw [beforeItems_eq hignores] at h
  have hfirst := itemCount_take_five h
  rw [usesOf_take_six_eq, List.foldl_append] at h
  rw [length_foldl_onRow_indexed settings h, hfirst, filter_fills]
  rfl

theorem exists_container_beforeItems (hlooped : root ∈ looped template)
    (hignores : settings.ignores root = false) :
    ∃ shape, beforeItems settings template root = some shape ∧ shape.isContainer = true := by
  have hshows : Shows template (.looped root) := hlooped
  exact beforeItems_of_shows (fun _ _ hgrows => Lasts.isContainer (.inl hgrows)) hshows rfl
    hignores (exists_container_onRow_looped settings root)

theorem isPlain_beforeItems_of_looped {shape : Shape} (hlooped : root ∈ looped template)
    (hignores : settings.ignores root = false)
    (h : beforeItems settings template root = some shape) : shape.isPlain = false := by
  rcases exists_container_beforeItems hlooped hignores with ⟨other, hother, hcontainer⟩
  rw [h] at hother
  rw [Option.some.inj hother]
  simpa [isContainer] using hcontainer

theorem eq_replicate_beforeItems {items : List Shape} (hignores : settings.ignores root = false)
    (h : beforeItems settings template root = some (.array items)) :
    items = List.replicate (listLength settings template root) Shape.printed := by
  have hunfilled := unfilled_beforeItems settings template root _ h
  rw [← length_beforeItems hignores h]
  exact List.eq_replicate_of_mem (hunfilled [] items rfl)

/-- An array comes out of the last pass as it went in, or as the sample of a loop. -/
theorem exists_array_beforeItems {template : String} {items : List Shape}
    (h : (Outline.ofTemplate settings template).find? root = some (.array items)) :
    settings.ignores root = false ∧
      ∃ earlier, beforeItems settings template.toList root = some (.array earlier) ∧
        (Shape.array earlier).withItems (loopsOver template.toList root) = .array items := by
  have hignores : settings.ignores root = false := by
    rw [Outline.find?_ofTemplate] at h
    by_contra hignores
    simp [hignores] at h
  rw [Outline.find?_ofTemplate_eq_withItems] at h
  rcases Option.map_eq_some_iff.mp h with ⟨before, hbefore, hitems⟩
  refine ⟨hignores, ?_⟩
  rcases withItems_eq_or before (loopsOver template.toList root) with
    hsame | ⟨hopen, loop, hloop, -, -⟩
  · have hvalue : before = .array items := hsame.symm.trans hitems
    exact ⟨items, hvalue ▸ hbefore, hvalue ▸ hitems⟩
  · -- the loop itself made an array of what was known
    have hmem := List.mem_filter.mp hloop
    have hlist : loop.header.list = root := by simpa using hmem.2
    have hlooped : root ∈ looped template.toList := hlist ▸ mem_looped_of_mem_loops hmem.1
    rw [isPlain_beforeItems_of_looped hlooped hignores hbefore, Bool.false_or] at hopen
    cases before with
    | array earlier => exact ⟨earlier, hbefore, hitems⟩
    | object fields => simp [isPlainList] at hopen
    | text value => simp [isPlainList] at hopen
    | flag value => simp [isPlainList] at hopen

/-- If the body of some loop over a list prints fields of the loop's item, the list is two equal
objects. Their keys are the fields that the first such loop prints of its item, each at its first
occurrence, and each holds `""`. If none does, the list holds nothing but `""`: one item if a loop
goes over it, and every item up to the last that is printed, those beyond the limit left out. -/
theorem items_of_list {template : String} {items : List Shape}
    (h : (Outline.ofTemplate settings template).find? root = some (.array items)) :
    (∀ loop, (loopsOver template.toList root).find? (fun loop =>
          (Pass.matchesOf Tag.printedField loop.body).any (·.owner == loop.header.item)) =
        some loop →
      items = List.replicate 2 (.object
        ((((Pass.matchesOf Tag.printedField loop.body).filter
          (·.owner == loop.header.item)).map (·.field)).eraseDups.map fun field =>
            (field, .text "")))) ∧
    ((∀ loop ∈ loops template.toList, loop.header.list = root →
        ∀ found ∈ Pass.matchesOf Tag.printedField loop.body, found.owner ≠ loop.header.item) →
      items = List.replicate (listLength settings template.toList root) (.text "")) := by
  rcases exists_array_beforeItems h with ⟨hignores, earlier, hbefore, hitems⟩
  have hearlier := eq_replicate_beforeItems hignores hbefore
  have hplain : (Shape.array earlier).isPlainList = true := by
    simp [hearlier, isPlainList, isPlain_printed]
  rw [Shape.withItems, hplain, Bool.or_true, if_pos rfl] at hitems
  simp only [Tag.Loop.isEmpty_fields, Bool.not_not] at hitems
  constructor
  · intro loop hloop
    have hfields : loop.fields = (((Pass.matchesOf Tag.printedField loop.body).filter
        (·.owner == loop.header.item)).map (·.field)).eraseDups := rfl
    rw [hloop] at hitems
    rw [← hfields]
    exact (Shape.array.inj hitems).symm
  · intro hloops
    have hnone : (loopsOver template.toList root).find? (fun loop =>
        (Pass.matchesOf Tag.printedField loop.body).any (·.owner == loop.header.item)) = none := by
      rw [List.find?_eq_none]
      intro loop hloop
      have hmem := List.mem_filter.mp hloop
      simpa using hloops loop hmem.1 (by simpa using hmem.2)
    rw [hnone] at hitems
    rw [← Shape.array.inj hitems]
    exact hearlier

/-- The second loop over `a` is the first that prints fields of its item. It prints `c` twice, and
between them a field of another variable. -/
theorem items_of_list_looped :
    (loopsOver ("{% for x in a %}{{ y.q }}{% endfor %}" ++
          "{% for x in a %}{{ x.c }}{{ y.q }}{{ x.b }}{{ x.c }}{% endfor %}{{ a[2] }}").toList
        "a").find? (fun loop =>
          (Pass.matchesOf Tag.printedField loop.body).any (·.owner == loop.header.item)) =
      some ⟨⟨"x", "a"⟩, "{{ x.c }}{{ y.q }}{{ x.b }}{{ x.c }}".toList⟩ ∧
    ∃ items, (Outline.ofTemplate {} ("{% for x in a %}{{ y.q }}{% endfor %}" ++
          "{% for x in a %}{{ x.c }}{{ y.q }}{{ x.b }}{{ x.c }}{% endfor %}{{ a[2] }}")).find? "a" =
        some (.array items) ∧
      items = List.replicate 2 (.object [("c", .text ""), ("b", .text "")]) := by
  have hloop : (loopsOver ("{% for x in a %}{{ y.q }}{% endfor %}" ++
        "{% for x in a %}{{ x.c }}{{ y.q }}{{ x.b }}{{ x.c }}{% endfor %}{{ a[2] }}").toList
      "a").find? (fun loop =>
        (Pass.matchesOf Tag.printedField loop.body).any (·.owner == loop.header.item)) =
      some ⟨⟨"x", "a"⟩, "{{ x.c }}{{ y.q }}{{ x.b }}{{ x.c }}".toList⟩ := by
    decide +kernel
  have harray : ((Outline.ofTemplate {} ("{% for x in a %}{{ y.q }}{% endfor %}" ++
      "{% for x in a %}{{ x.c }}{{ y.q }}{{ x.b }}{{ x.c }}{% endfor %}{{ a[2] }}")).find? "a").any
        (fun shape => shape.items?.isSome) = true := by
    decide +kernel
  rcases (Option.any_eq_true ..).mp harray with ⟨shape, hshape, hitems⟩
  cases shape with
  | array items =>
      have hkeys : (((Pass.matchesOf Tag.printedField
          "{{ x.c }}{{ y.q }}{{ x.b }}{{ x.c }}".toList).filter (·.owner == "x")).map
            (·.field)).eraseDups = ["c", "b"] := by
        decide +kernel
      have hvalue := (items_of_list hshape).1 _ hloop
      rw [hkeys] at hvalue
      exact ⟨hloop, items, hshape, hvalue⟩
  | object fields => simp [items?] at hitems
  | text value => simp [items?] at hitems
  | flag value => simp [items?] at hitems

end Template

end TemplateShape
