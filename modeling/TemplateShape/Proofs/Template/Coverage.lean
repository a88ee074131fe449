import TemplateShape.Proofs.Template.Items

/-! # Every use is in the outline

A write arrives at the end of its path, unless an array stands in the way of a name, and what has
arrived stays there through all later writes. -/

namespace TemplateShape

/-! ## Arriving in a shape -/

namespace Shape

def Blocked (shape : Shape) (path : List Step) : Prop :=
  ∃ front, front <+: path ∧ front ≠ path ∧ ∃ items, shape.get? front = some (.array items)

/-- There is a part at the end of a path, or an array is in the way. -/
def Reached (shape : Shape) (path : List Step) : Prop :=
  (shape.get? path).isSome ∨ shape.Blocked path

/-- There is an item at an index behind a path, in an array or as a key of an object, or an array
is in the way. -/
def ItemReached (shape : Shape) (path : List Step) (i : Nat) : Prop :=
  shape.Blocked path ∨
  (∃ fields, shape.get? path = some (.object fields) ∧
    (Step.index i).text ∈ Fields.names fields) ∨
  ∃ items, shape.get? path = some (.array items) ∧ i < items.length

theorem Grows.blocked {before after : Shape} (h : before.Grows after) {path : List Step}
    (hpath : before.Blocked path) : after.Blocked path := by
  obtain ⟨front, hfront, hne, items, hitems⟩ := hpath
  obtain ⟨_, hget, more, rfl, -⟩ := h front _ hitems
  exact ⟨front, hfront, hne, more, hget⟩

theorem Grows.reached {before after : Shape} (h : before.Grows after) {path : List Step}
    (hpath : before.Reached path) : after.Reached path := by
  rcases hpath with hpart | hblocked
  · obtain ⟨part, hpart⟩ := Option.isSome_iff_exists.mp hpart
    obtain ⟨later, hlater, -⟩ := h path part hpart
    exact .inl (by rw [hlater]; rfl)
  · exact .inr (h.blocked hblocked)

theorem Grows.itemReached {before after : Shape} (h : before.Grows after) {path : List Step}
    {i : Nat} (hpath : before.ItemReached path i) : after.ItemReached path i := by
  rcases hpath with hblocked | ⟨fields, hget, hmem⟩ | ⟨items, hget, hlt⟩
  · exact .inl (h.blocked hblocked)
  · obtain ⟨_, hlater, more, rfl, hnames⟩ := h path _ hget
    exact .inr (.inl ⟨more, hlater, hnames.subset hmem⟩)
  · obtain ⟨_, hlater, more, rfl, hlength⟩ := h path _ hget
    exact .inr (.inr ⟨more, hlater, Nat.lt_of_lt_of_le hlt hlength⟩)

theorem put_key_cases (shape : Shape) (name : String) (rest : List Step) (leaf : Shape) :
    (∃ items, shape.put (.key name :: rest) leaf = .array items) ∨
    ∃ (fields : Fields Shape) (part : Shape),
      shape.put (.key name :: rest) leaf = .object fields ∧
        Fields.find? fields name = some (part.put rest leaf) := by
  rcases put_cases shape (.key name) rest leaf with hput | ⟨i, hindex, -⟩ | ⟨-, items, -, hput⟩
  · refine .inr ⟨_, (Fields.find? (shape.fields?.getD []) name).getD (freshPlace rest), hput, ?_⟩
    rw [Fields.find?_alter, Step.text, if_pos rfl]
  · cases hindex
  · exact .inl ⟨items, hput⟩

theorem blocked_of_array (items : List Shape) (step : Step) (rest : List Step) :
    (array items).Blocked (step :: rest) :=
  ⟨[], List.nil_prefix, by simp, items, rfl⟩

theorem get?_key_object {fields : Fields Shape} {name : String} {part : Shape}
    (h : Fields.find? fields name = some part) (rest : List Step) :
    (object fields).get? (.key name :: rest) = part.get? rest := by
  rw [get?_cons, child?_key_object, h]
  rfl

theorem Blocked.object {part : Shape} {rest : List Step} (h : part.Blocked rest)
    {fields : Fields Shape} {name : String} (hpart : Fields.find? fields name = some part) :
    (Shape.object fields).Blocked (.key name :: rest) := by
  obtain ⟨front, hfront, hne, items, hitems⟩ := h
  refine ⟨.key name :: front, List.cons_prefix_cons.mpr ⟨rfl, hfront⟩, by simpa using hne, items,
    ?_⟩
  rw [get?_key_object hpart, hitems]

theorem reached_put (shape : Shape) (names : List String) (leaf : Shape) :
    (shape.put (names.map .key) leaf).Reached (names.map .key) := by
  induction names generalizing shape with
  | nil => exact .inl rfl
  | cons name rest ih =>
      rcases put_key_cases shape name (rest.map .key) leaf with
        ⟨items, hput⟩ | ⟨fields, part, hput, hpart⟩
      · rw [List.map_cons, hput]
        exact .inr (blocked_of_array items _ _)
      · rw [List.map_cons, hput]
        rcases ih part with hrest | hblocked
        · exact .inl (by rw [get?_key_object hpart]; exact hrest)
        · exact .inr (hblocked.object hpart)

theorem itemReached_put_index (shape : Shape) (i : Nat) (leaf : Shape) :
    (shape.put [.index i] leaf).ItemReached [] i := by
  rcases put_cases shape (.index i) [] leaf with hput | ⟨j, hindex, hput⟩ | ⟨⟨name, hkey⟩, -⟩
  · refine .inr (.inl ⟨_, congrArg some hput, ?_⟩)
    rw [Fields.names_alter]
    split
    · assumption
    · simp
  · obtain rfl := Step.index.inj hindex
    refine .inr (.inr ⟨_, congrArg some hput, ?_⟩)
    rw [length_rightpad_modify]
    omega
  · cases hkey

theorem itemReached_put (shape : Shape) (names : List String) (i : Nat) (leaf : Shape) :
    (shape.put (names.map .key ++ [.index i]) leaf).ItemReached (names.map .key) i := by
  induction names generalizing shape with
  | nil => exact itemReached_put_index shape i leaf
  | cons name rest ih =>
      rcases put_key_cases shape name (rest.map .key ++ [.index i]) leaf with
        ⟨items, hput⟩ | ⟨fields, part, hput, hpart⟩
      · rw [List.map_cons, List.cons_append, hput]
        exact .inl (blocked_of_array items _ _)
      · rw [List.map_cons, List.cons_append, hput]
        rcases ih part with hblocked | ⟨more, hget, hmem⟩ | ⟨items, hget, hlt⟩
        · exact .inl (hblocked.object hpart)
        · exact .inr (.inl ⟨more, by rw [get?_key_object hpart]; exact hget, hmem⟩)
        · exact .inr (.inr ⟨items, by rw [get?_key_object hpart]; exact hget, hlt⟩)

/-- The sample of a loop takes the place of a whole variable, so it is in the way of every path. -/
theorem Reached.withItems {shape : Shape} {path : List Step} (h : shape.Reached path)
    (loops : List Tag.Loop) : (shape.withItems loops).Reached path := by
  rcases withItems_eq_or shape loops with heq | ⟨-, loop, -, -, heq⟩
  · rwa [heq]
  · rw [heq]
    cases path with
    | nil => exact .inl rfl
    | cons step rest => exact .inr (blocked_of_array _ step rest)

/-- An item is lost only to the sample of a loop, and only if it was one of the variable itself. -/
theorem ItemReached.withItems {shape : Shape} {path : List Step} {i : Nat}
    (h : shape.ItemReached path i) (loops : List Tag.Loop) :
    (shape.withItems loops).ItemReached path i ∨
      path = [] ∧ (∃ earlier, shape = .array earlier ∧ i < earlier.length) ∧
        ∃ loop ∈ loops, loop.fields ≠ [] ∧
          shape.withItems loops = Finding.sampleItems loop.fields := by
  rcases withItems_eq_or shape loops with heq | ⟨hopen, loop, hloop, hfields, heq⟩
  · exact .inl (by rwa [heq])
  · cases path with
    | cons step rest =>
        rw [heq]
        exact .inl (.inl (blocked_of_array _ step rest))
    | nil =>
        rcases h with ⟨front, hfront, hne, -⟩ | ⟨fields, hget, -⟩ | ⟨items, hget, hlt⟩
        · exact absurd (List.prefix_nil.mp hfront) hne
        · obtain rfl : shape = .object fields := Option.some.inj hget
          cases hopen
        · obtain rfl : shape = .array items := Option.some.inj hget
          exact .inr ⟨rfl, ⟨items, rfl, hlt⟩, loop, hloop, hfields, heq⟩

end Shape

/-! ## Arriving in a row -/

namespace Finding

open Shape

theorem reached_editsOfPath {path : NamePath} (hdepth : path.depth ≤ depthLimit)
    (policy : Policy) (leaf : Shape) (row : Option Shape) :
    ∃ shape : Shape, (editsOfPath policy path leaf).foldl Edit.onRow row = some shape ∧
      shape.Reached path.below := by
  cases hbare : path.isBare with
  | true =>
      refine ⟨_, foldl_editsOfPath_bare hbare policy leaf row, ?_⟩
      rw [NamePath.below, List.isEmpty_iff.mp hbare]
      exact .inl rfl
  | false =>
      rw [foldl_editsOfPath_dotted hbare, onRow_writeAt hdepth, List.append_nil]
      exact ⟨_, rfl, reached_put _ path.rest leaf⟩

theorem itemReached_onRow {settings : Settings} {path : Tag.IndexedPath}
    (hindex : path.index ≤ settings.indexLimit) (hdepth : path.base.depth ≤ depthLimit)
    (row : Option Shape) :
    ∃ shape : Shape, onRow settings row (.indexed path) = some shape ∧
      shape.ItemReached path.base.below path.index := by
  rw [onRow_indexed hindex hdepth]
  exact ⟨_, rfl, itemReached_put _ path.base.rest path.index Shape.printed⟩

end Finding

/-! ## Arriving in the outline -/

def Outline.Blocked (outline : Outline) (path : List Step) : Prop :=
  ∃ front, front <+: path ∧ front ≠ path ∧ ∃ items, outline.get? front = some (.array items)

theorem Outline.blocked_of_find? {outline : Outline} {root : String} {shape : Shape}
    (h : outline.find? root = some shape) {path : List Step} (hpath : shape.Blocked path) :
    outline.Blocked (.key root :: path) := by
  obtain ⟨front, hfront, hne, items, hitems⟩ := hpath
  refine ⟨.key root :: front, List.cons_prefix_cons.mpr ⟨rfl, hfront⟩, by simpa using hne, items,
    ?_⟩
  rw [get?_key h, hitems]

namespace Template

open Finding

/-- The end of a path is reached, or an array is in the way. -/
theorem reached_ofTemplate {settings : Settings} {template : String} {path : NamePath}
    (finding : Finding) (h : Shows template.toList finding) (hitems : finding.isItems = false)
    (hroot : finding.root = path.root) (hignores : settings.ignores path.root = false)
    (hfinding : ∀ row, ∃ shape, finding.onRow settings row = some shape ∧
      shape.Reached path.below) :
    ((Outline.ofTemplate settings template).get? path.steps).isSome ∨
      (Outline.ofTemplate settings template).Blocked path.steps := by
  obtain ⟨shape, hshape, hreached⟩ := beforeItems_of_shows (fun _ _ hgrows => hgrows.reached) h
    hitems (by rwa [hroot]) hfinding
  have hfind := Outline.find?_ofTemplate_eq_withItems settings template path.root
  rw [← hroot, hshape, hroot] at hfind
  rcases hreached.withItems (loopsOver template.toList path.root) with hpart | hblocked
  · exact .inl (by rw [NamePath.steps, Outline.get?_key hfind]; exact hpart)
  · exact .inr (Outline.blocked_of_find? hfind hblocked)

theorem itemReached_ofTemplate {settings : Settings} {template : String} {path : Tag.IndexedPath}
    (h : path ∈ indexed template.toList) (hignores : settings.ignores path.base.root = false)
    (hindex : path.index ≤ settings.indexLimit) (hdepth : path.base.depth ≤ depthLimit) :
    (Outline.ofTemplate settings template).Blocked path.base.steps ∨
    (∃ fields, (Outline.ofTemplate settings template).get? path.base.steps = some (.object fields) ∧
      (Step.index path.index).text ∈ Fields.names fields) ∨
    ∃ items, (Outline.ofTemplate settings template).get? path.base.steps = some (.array items) ∧
      (path.index < items.length ∨
        path.base.isBare = true ∧
        (∃ earlier, beforeItems settings template.toList path.base.root = some (.array earlier) ∧
          path.index < earlier.length) ∧
        ∃ loop ∈ loops template.toList, loop.header.list = path.base.root ∧ loop.fields ≠ [] ∧
          .array items = sampleItems loop.fields) := by
  have hshows : Shows template.toList (.indexed path) := h
  obtain ⟨shape, hshape, hreached⟩ := beforeItems_of_shows
    (fun _ _ hgrows => hgrows.itemReached) hshows rfl hignores (itemReached_onRow hindex hdepth)
  have hfind := Outline.find?_ofTemplate_eq_withItems settings template path.base.root
  rw [Finding.root] at hshape
  rw [hshape] at hfind
  rw [NamePath.steps]
  simp only [Outline.get?_key hfind]
  rcases hreached.withItems (loopsOver template.toList path.base.root) with
    (hblocked | hkey | ⟨items, hget, hlt⟩) |
      ⟨hbelow, ⟨earlier, rfl, hlt⟩, loop, hloop, hfields, heq⟩
  · exact .inl (Outline.blocked_of_find? hfind hblocked)
  · exact .inr (.inl hkey)
  · exact .inr (.inr ⟨items, hget, .inl hlt⟩)
  · obtain ⟨hmem, hlist⟩ := List.mem_filter.mp hloop
    rw [hbelow, heq]
    refine .inr (.inr ⟨_, rfl, .inr ⟨?_, ⟨earlier, hshape, hlt⟩, loop, hmem, ?_, hfields, rfl⟩⟩)
    · simpa [NamePath.below, NamePath.isBare] using hbelow
    · simpa using hlist

theorem mem_names_ofTemplate {settings : Settings} {template : String} {finding : Finding}
    (h : Shows template.toList finding) (hitems : finding.isItems = false)
    (hignores : settings.ignores finding.root = false) :
    finding.root ∈ (Outline.ofTemplate settings template).names := by
  rw [← Outline.find?_isSome_iff, Outline.find?_ofTemplate_eq_withItems, Option.isSome_map]
  exact isSome_beforeItems h hitems hignores

/-- No use is lost. A variable that is used has a row. A written path of at most 64 names can be
followed to its end, or an array is in the way. A printed item is there, as a key or as an item, or
an array is in the way; only if it is an item of the variable itself, a loop that prints fields may
have put its sample in the place of the array in which it was. -/
theorem uses_are_kept (settings : Settings) (template : String) :
    (∀ pass ≠ .loopItems, ∀ use ∈ Pass.uses template.toList pass,
      settings.ignores use.root = false → use.root ∈ (Outline.ofTemplate settings template).names) ∧
    (∀ path ∈ assigned template.toList ++ printed template.toList ++ tested template.toList,
      settings.ignores path.root = false → path.depth ≤ depthLimit →
        ((Outline.ofTemplate settings template).get? path.steps).isSome ∨
          (Outline.ofTemplate settings template).Blocked path.steps) ∧
    ∀ path ∈ indexed template.toList, settings.ignores path.base.root = false →
      path.index ≤ settings.indexLimit → path.base.depth ≤ depthLimit →
        (Outline.ofTemplate settings template).Blocked path.base.steps ∨
        (∃ fields,
          (Outline.ofTemplate settings template).get? path.base.steps = some (.object fields) ∧
            (Step.index path.index).text ∈ Fields.names fields) ∨
        ∃ items,
          (Outline.ofTemplate settings template).get? path.base.steps = some (.array items) ∧
            (path.index < items.length ∨
              path.base.isBare = true ∧
              (∃ earlier, beforeItems settings template.toList path.base.root =
                some (.array earlier) ∧ path.index < earlier.length) ∧
              ∃ loop ∈ loops template.toList, loop.header.list = path.base.root ∧
                loop.fields ≠ [] ∧ .array items = sampleItems loop.fields) := by
  refine ⟨?_, ?_, fun path => itemReached_ofTemplate⟩
  · intro pass hpass use huse hignores
    have hmem : use ∈ Pass.usesOf Pass.all template.toList use.root := by
      refine List.mem_filter.mpr ⟨List.mem_flatMap.mpr ⟨pass, ?_, huse⟩, beq_self_eq_true _⟩
      cases pass <;> decide
    have hshows := ((mem_usesOf_all_iff _ _ use).mp hmem).1
    exact mem_names_ofTemplate hshows (Pass.isItems_of_mem_uses hpass huse) hignores
  · intro path hpath hignores hdepth
    rcases List.mem_append.mp hpath with hpath | hpath
    · rcases List.mem_append.mp hpath with hpath | hpath
      · exact reached_ofTemplate (.assigned path) hpath rfl rfl hignores
          (reached_editsOfPath hdepth .keep Shape.printed)
      · exact reached_ofTemplate (.printed path) hpath rfl rfl hignores
          (reached_editsOfPath hdepth .upgrade Shape.printed)
    · refine reached_ofTemplate (.tested path) hpath rfl rfl hignores ?_
      intro row
      rw [onRow_tested]
      exact reached_editsOfPath hdepth .upgrade Shape.tested row

/-- A list has no place for the field that a condition reads of it. -/
theorem uses_are_kept_below_list :
    (⟨"a", ["c"]⟩ : NamePath) ∈ tested "{% for x in a %}{% if a.c %}".toList ∧
    (Outline.ofTemplate {} "{% for x in a %}{% if a.c %}").Blocked [.key "a", .key "c"] := by
  have hmem : (⟨"a", ["c"]⟩ : NamePath) ∈ tested "{% for x in a %}{% if a.c %}".toList := by
    decide +kernel
  have hget : ((Outline.ofTemplate {} "{% for x in a %}{% if a.c %}").get?
      (⟨"a", ["c"]⟩ : NamePath).steps).isSome = false := by decide +kernel
  refine ⟨hmem, ?_⟩
  rcases (uses_are_kept {} "{% for x in a %}{% if a.c %}").2.1 ⟨"a", ["c"]⟩
    (List.mem_append_right _ hmem) (by decide) (by decide) with hpart | hblocked
  · rw [hget] at hpart
    cases hpart
  · exact hblocked

end Template

end TemplateShape
