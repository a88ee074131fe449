import TemplateShape.Proofs.Template.Kind

/-! # Which kind a variable gets

The suggestions for a variable in the order of the passes, and the kind that follows. Only between
two printed items of one variable does it matter which comes first in the template. -/

namespace TemplateShape.Template

open Shape Finding

def goesBelow (root : String) (path : NamePath) : Bool :=
  path.root == root && !path.isBare

/-- The kind of a variable that a template reads. -/
def kindOf (template : List Char) (root : String) : Kind :=
  let written := assigned template ++ printed template
  if written.any (goesBelow root) then .object
  else if (looped template).contains root then .array
  else if (entriesLooped template).contains root || (tested template).any (goesBelow root) then
    .object
  else
    match (indexed template).find? (·.base.root == root) with
    | some path => if path.base.isBare then .array else .object
    | none => if written.contains (.bare root) then .text "" else .flag true

/-! ## Suggestions -/

/-- What paths suggest for a variable, if a bare one suggests `leaf`. -/
def pathKinds (leaf : Kind) (root : String) (paths : List NamePath) : List Kind :=
  (paths.filter (·.root == root)).map fun path => if path.isBare then leaf else .object

def itemKinds (root : String) (paths : List Tag.IndexedPath) : List Kind :=
  (paths.filter (·.base.root == root)).map fun path => if path.base.isBare then .array else .object

def suggestions (template : List Char) (root : String) : List Kind :=
  (Pass.usesOf Pass.all template root).filterMap suggests

variable (template : List Char) (root : String)

theorem filterMap_suggests_map {α : Type} {use : α → Finding} {kind : α → Kind}
    (h : ∀ a, (use a).suggests = some (kind a)) (xs : List α) :
    (xs.map use).filterMap suggests = xs.map kind := by
  rw [List.filterMap_map, ← List.filterMap_eq_map]
  exact congrArg (List.filterMap · xs) (funext h)

theorem suggestions_eq : suggestions template root =
    pathKinds (.text "") root (assigned template ++ printed template) ++
    (((looped template).filter (· == root)).map (fun _ => .array) ++
    (((entriesLooped template).filter (· == root)).map (fun _ => .object) ++
    (pathKinds (.flag true) root (tested template) ++
    (itemKinds root (indexed template) ++
    (((loops template).filter (·.header.list == root)).map itemsOf).filterMap suggests)))) := by
  rw [suggestions, usesOf_all, usesOf_take_six, usesOf_loopItems]
  simp only [List.filterMap_append, List.append_assoc, pathKinds, itemKinds, List.filter_append,
    List.map_append]
  rw [filterMap_suggests_map fun path : NamePath => rfl,
    filterMap_suggests_map fun path : NamePath => rfl,
    filterMap_suggests_map fun list : String => rfl,
    filterMap_suggests_map fun mapping : String => rfl,
    filterMap_suggests_map fun path : NamePath => rfl,
    filterMap_suggests_map fun path : Tag.IndexedPath => rfl]

theorem find?_pathKinds {leaf : Kind} (h : leaf.isContainer = false) (paths : List NamePath) :
    (pathKinds leaf root paths).find? Kind.isContainer =
      if paths.any (goesBelow root) then some .object else none := by
  induction paths with
  | nil => rfl
  | cons path rest ih =>
      rw [List.any_cons]
      by_cases hroot : path.root = root
      · cases hbare : path.isBare with
        | true => simpa [pathKinds, goesBelow, hroot, hbare, h] using ih
        | false => simp [pathKinds, goesBelow, hroot, hbare, Kind.isContainer]
      · simpa [pathKinds, goesBelow, hroot] using ih

theorem find?_map_const (kind : Kind) (h : kind.isContainer = true) (names : List String) :
    ((names.filter (· == root)).map fun _ => kind).find? Kind.isContainer =
      if names.contains root then some kind else none := by
  induction names with
  | nil => rfl
  | cons name rest ih =>
      by_cases hname : name = root
      · simp [hname, h]
      · have hroot : ¬ root = name := fun e => hname e.symm
        simpa [hname, hroot] using ih

theorem find?_itemKinds (paths : List Tag.IndexedPath) :
    (itemKinds root paths).find? Kind.isContainer =
      (paths.find? (·.base.root == root)).map fun path =>
        if path.base.isBare then .array else .object := by
  induction paths with
  | nil => rfl
  | cons path rest ih =>
      by_cases hroot : path.base.root = root
      · cases hbare : path.base.isBare <;> simp [itemKinds, hroot, hbare, Kind.isContainer]
      · simpa [itemKinds, hroot] using ih

theorem find?_suggestions : (suggestions template root).find? Kind.isContainer =
    if (assigned template ++ printed template).any (goesBelow root) then some .object
    else if (looped template).contains root then some .array
    else if (entriesLooped template).contains root || (tested template).any (goesBelow root) then
      some .object
    else
      ((indexed template).find? (·.base.root == root)).map fun path =>
        if path.base.isBare then .array else .object := by
  rw [suggestions_eq]
  simp only [List.find?_append]
  rw [find?_pathKinds root rfl, find?_map_const root .array rfl, find?_map_const root .object rfl,
    find?_pathKinds root rfl, find?_itemKinds]
  cases hwritten : (assigned template ++ printed template).any (goesBelow root) with
  | true => rfl
  | false =>
      cases hlooped : (looped template).contains root with
      | true => rfl
      | false =>
          rw [filter_loops_eq_nil (by simpa using hlooped)]
          cases (entriesLooped template).contains root <;>
            cases (tested template).any (goesBelow root) <;> simp

theorem of_mem_pathKinds {leaf kind : Kind} {paths : List NamePath} {root : String}
    (h : kind ∈ pathKinds leaf root paths) (hkind : kind.isContainer = false) :
    kind = leaf ∧ .bare root ∈ paths := by
  obtain ⟨path, hpath, rfl⟩ := List.mem_map.mp h
  obtain ⟨hmem, hroot⟩ := List.mem_filter.mp hpath
  obtain rfl : path.root = root := by simpa using hroot
  cases hbare : path.isBare with
  | false =>
      rw [hbare] at hkind
      cases hkind
  | true =>
      obtain ⟨name, rest⟩ := path
      obtain rfl : rest = [] := List.isEmpty_iff.mp hbare
      exact ⟨rfl, hmem⟩

theorem mem_pathKinds (leaf : Kind) {paths : List NamePath} {root : String}
    (h : .bare root ∈ paths) : leaf ∈ pathKinds leaf root paths := by
  have hmem : .bare root ∈ paths.filter (·.root == root) :=
    List.mem_filter.mpr ⟨h, beq_self_eq_true root⟩
  exact List.mem_map.mpr ⟨.bare root, hmem, rfl⟩

theorem isContainer_of_mem_itemKinds {kind : Kind} {root : String} {paths : List Tag.IndexedPath}
    (h : kind ∈ itemKinds root paths) : kind.isContainer = true := by
  obtain ⟨path, -, rfl⟩ := List.mem_map.mp h
  cases path.base.isBare <;> rfl

theorem isContainer_of_mem_items {kind : Kind} {found : List Tag.Loop}
    (h : kind ∈ (found.map itemsOf).filterMap suggests) : kind.isContainer = true := by
  obtain ⟨finding, hfinding, hkind⟩ := List.mem_filterMap.mp h
  obtain ⟨loop, -, rfl⟩ := List.mem_map.mp hfinding
  simp only [itemsOf, suggests] at hkind
  split at hkind
  · cases hkind
  · obtain rfl := Option.some.inj hkind
    rfl

/-- Without a container, a suggestion is a plain one of a bare path, and paths that are written
come before those that are tested. -/
theorem head?_suggestions {template : List Char} {root : String} {kind : Kind}
    (hnone : (suggestions template root).find? Kind.isContainer = none)
    (h : (suggestions template root).head? = some kind) :
    kind = if (assigned template ++ printed template).contains (.bare root) then .text ""
      else .flag true := by
  have hkind : kind.isContainer = false := by
    simpa using List.find?_eq_none.mp hnone kind (List.mem_of_head? h)
  rw [suggestions_eq, List.head?_append] at h
  cases hwritten : (pathKinds (.text "") root (assigned template ++ printed template)).head? with
  | some first =>
      obtain rfl : first = kind := by simpa [hwritten] using h
      obtain ⟨rfl, hbare⟩ := of_mem_pathKinds (List.mem_of_head? hwritten) hkind
      rw [if_pos (List.contains_iff_mem.mpr hbare)]
  | none =>
      have hbare : ¬ (assigned template ++ printed template).contains (.bare root) = true := by
        intro hcontains
        have hmem := mem_pathKinds (.text "") (List.contains_iff_mem.mp hcontains)
        rw [List.head?_eq_none_iff.mp hwritten] at hmem
        cases hmem
      rw [hwritten, Option.none_or] at h
      rw [if_neg hbare]
      have hrest := List.mem_of_head? h
      simp only [List.mem_append] at hrest
      rcases hrest with hmem | hmem | hmem | hmem | hmem
      · obtain ⟨name, -, rfl⟩ := List.mem_map.mp hmem
        cases hkind
      · obtain ⟨name, -, rfl⟩ := List.mem_map.mp hmem
        cases hkind
      · exact (of_mem_pathKinds hmem hkind).1
      · rw [isContainer_of_mem_itemKinds hmem] at hkind
        cases hkind
      · rw [isContainer_of_mem_items hmem] at hkind
        cases hkind

/-! ## The kind of a shape -/

theorem kindOf_eq : kindOf template root =
    ((suggestions template root).find? Kind.isContainer).getD
      (if (assigned template ++ printed template).contains (.bare root) then .text ""
        else .flag true) := by
  rw [find?_suggestions, kindOf]
  split
  · rfl
  · split
    · rfl
    · split
      · rfl
      · cases (indexed template).find? (·.base.root == root) <;> rfl

/-- A variable that is used below itself is an object if it is printed or assigned there, else an
array if a loop goes over it, else an object if a loop goes over its entries or a condition reads
below it. A variable that none of these shows is what its first indexed use makes of it, and if
there is none it is a plain value: `""` if it is printed or assigned, and `true` if it is only
tested. Nothing else counts, and of the order in the template only that of indexed uses. Only the
sources of assignments have to be short enough: one that is not written leaves a plain value. -/
theorem kind_eq_kindOf {settings : Settings} {template root : String} {shape : Shape}
    (hdepth : ∀ path ∈ assigned template.toList, path.root = root → path.depth ≤ depthLimit)
    (h : (Outline.ofTemplate settings template).find? root = some shape) :
    shape.kind = kindOf template.toList root := by
  rw [Outline.find?_ofTemplate] at h
  split at h
  · cases h
  · have hassigned : ∀ path, .assigned path ∈ Pass.usesOf Pass.all template.toList root →
        path.depth ≤ depthLimit := by
      intro path hpath
      obtain ⟨hmem, hroot⟩ := (mem_usesOf_all_iff _ _ _).mp hpath
      exact hdepth path hmem hroot
    have hkinds := kind_foldl_onRow settings hassigned none
    rw [h, Option.map_some, Option.map_none, Kind.foldl_adopt] at hkinds
    change some shape.kind = ((suggestions template.toList root).find? Kind.isContainer).or
      (suggestions template.toList root).head? at hkinds
    rw [kindOf_eq]
    cases hfind : (suggestions template.toList root).find? Kind.isContainer with
    | some kind => simpa [hfind] using hkinds
    | none =>
        rw [hfind, Option.none_or] at hkinds
        exact head?_suggestions hfind hkinds.symm

/-- A loop makes `a` an array, although it is also assigned and tested below. -/
theorem kind_eq_kindOf_looped :
    (∀ path ∈ assigned "{% set x = a %}{% if a.b %}{% for x in a %}".toList, path.root = "a" →
      path.depth ≤ depthLimit) ∧
    ∃ shape, (Outline.ofTemplate {} "{% set x = a %}{% if a.b %}{% for x in a %}").find? "a" =
      some shape ∧ shape.kind = .array := by
  have hdepth : ∀ path ∈ assigned "{% set x = a %}{% if a.b %}{% for x in a %}".toList,
      path.root = "a" → path.depth ≤ depthLimit := by decide +kernel
  have hsome : ((Outline.ofTemplate {} "{% set x = a %}{% if a.b %}{% for x in a %}").find?
      "a").isSome := by decide +kernel
  have hkind : kindOf "{% set x = a %}{% if a.b %}{% for x in a %}".toList "a" = .array := by
    decide +kernel
  obtain ⟨shape, hshape⟩ := Option.isSome_iff_exists.mp hsome
  exact ⟨hdepth, shape, hshape, (kind_eq_kindOf hdepth hshape).trans hkind⟩

end TemplateShape.Template
