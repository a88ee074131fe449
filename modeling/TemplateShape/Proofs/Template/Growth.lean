import TemplateShape.Proofs.Outline.Rows

/-! # Passes only add structure

No row is lost and no container turns into something else. Items of an array are lost only to the
sample of a loop, which takes the place of an array of plain values. -/

namespace TemplateShape

/-! ## Shapes that last -/

namespace Shape

theorem Grows.isPlainList {before after : Shape} (h : before.Grows after)
    (hafter : after.isPlainList = true) : before.isPlain = true ∨ before.isPlainList = true := by
  cases before with
  | object fields =>
      obtain ⟨later, hlater, more, rfl, -⟩ := h [] _ rfl
      obtain rfl : after = .object more := Option.some.inj hlater
      cases hafter
  | array items =>
      obtain ⟨later, hlater, more, rfl, hlength⟩ := h [] _ rfl
      obtain rfl : after = .array more := Option.some.inj hlater
      refine .inr (List.all_eq_true.mpr ?_)
      intro item hitem
      obtain ⟨i, hi⟩ := List.mem_iff_getElem?.mp hitem
      obtain ⟨later, hget, hext⟩ := h [.index i] item (by simp [get?_cons, hi])
      have hmore : more[i]? = some later := by
        cases hget' : more[i]? with
        | none => simp [get?_cons, hget'] at hget
        | some other => simpa [get?_cons, hget'] using hget
      have hplain : later.isPlain = true :=
        List.all_eq_true.mp hafter later (List.mem_of_getElem? hmore)
      cases item with
      | object fields =>
          obtain ⟨_, rfl, -⟩ := hext
          cases hplain
      | array parts =>
          obtain ⟨_, rfl, -⟩ := hext
          cases hplain
      | text value => rfl
      | flag value => rfl
  | text value => exact .inl rfl
  | flag value => exact .inl rfl

theorem get?_of_isPlainList {shape part : Shape} {path : List Step}
    (h : shape.isPlainList = true) (hpart : shape.get? path = some part) :
    (path = [] ∧ part = shape) ∨ part.isPlain = true := by
  cases path with
  | nil => exact .inl ⟨rfl, (Option.some.inj hpart).symm⟩
  | cons step rest =>
      cases shape with
      | array items =>
          obtain ⟨item, hitem, hrest⟩ := Option.bind_eq_some_iff.mp hpart
          cases step with
          | key name => cases hitem
          | index i =>
              have hplain : item.isPlain = true :=
                List.all_eq_true.mp h item (List.mem_of_getElem? hitem)
              obtain ⟨-, rfl⟩ := get?_of_isPlain hplain hrest
              exact .inr hplain
      | _ => cases h

/-- A shape grows, or it is an array of plain values that another array takes the place of. -/
def Lasts (before after : Shape) : Prop :=
  before.Grows after ∨ (before.isPlainList = true ∧ ∃ items, after = .array items)

theorem Lasts.refl (shape : Shape) : shape.Lasts shape :=
  .inl (.refl shape)

theorem Lasts.trans {first second third : Shape} (h : first.Lasts second)
    (h' : second.Lasts third) : first.Lasts third := by
  rcases h with hgrows | ⟨hlist, items, rfl⟩
  · rcases h' with hgrows' | ⟨hlist', items, rfl⟩
    · exact .inl (hgrows.trans hgrows')
    · rcases hgrows.isPlainList hlist' with hplain | hlist
      · exact .inl (.of_isPlain hplain _)
      · exact .inr ⟨hlist, items, rfl⟩
  · rcases h' with hgrows' | ⟨-, items', rfl⟩
    · obtain ⟨later, hlater, more, rfl, -⟩ := hgrows' [] _ rfl
      exact .inr ⟨hlist, more, Option.some.inj hlater⟩
    · exact .inr ⟨hlist, items', rfl⟩

theorem Lasts.get?_object {before after : Shape} {path : List Step} {fields : Fields Shape}
    (h : before.Lasts after) (hpart : before.get? path = some (.object fields)) :
    ∃ more, after.get? path = some (.object more) ∧ Fields.names fields <+: Fields.names more := by
  rcases h with hgrows | ⟨hlist, -⟩
  · obtain ⟨_, hget, more, rfl, hnames⟩ := hgrows path _ hpart
    exact ⟨more, hget, hnames⟩
  · rcases get?_of_isPlainList hlist hpart with ⟨-, rfl⟩ | hplain
    · cases hlist
    · cases hplain

theorem Lasts.get?_array {before after : Shape} {path : List Step} {items : List Shape}
    (h : before.Lasts after) (hpart : before.get? path = some (.array items)) :
    ∃ more, after.get? path = some (.array more) ∧
      (items.length ≤ more.length ∨ path = [] ∧ items.all isPlain = true) := by
  rcases h with hgrows | ⟨hlist, more, rfl⟩
  · obtain ⟨_, hget, more, rfl, hlength⟩ := hgrows path _ hpart
    exact ⟨more, hget, .inl hlength⟩
  · rcases get?_of_isPlainList hlist hpart with ⟨rfl, rfl⟩ | hplain
    · exact ⟨more, rfl, .inr ⟨rfl, hlist⟩⟩
    · cases hplain

end Shape

/-! ## Rows that last -/

/-- A row that has a shape keeps one, in the given relation to it. -/
def RowKeeps (rel : Shape → Shape → Prop) (before after : Option Shape) : Prop :=
  ∀ shape, before = some shape → ∃ later, after = some later ∧ rel shape later

namespace RowKeeps

variable {rel : Shape → Shape → Prop}

theorem refl (hrefl : ∀ shape, rel shape shape) (row : Option Shape) : RowKeeps rel row row :=
  fun shape h => ⟨shape, h, hrefl shape⟩

theorem trans (htrans : ∀ {a b c}, rel a b → rel b c → rel a c) {first second third : Option Shape}
    (h : RowKeeps rel first second) (h' : RowKeeps rel second third) :
    RowKeeps rel first third := by
  intro shape hshape
  obtain ⟨later, hlater, hrel⟩ := h shape hshape
  obtain ⟨last, hlast, hrel'⟩ := h' later hlater
  exact ⟨last, hlast, htrans hrel hrel'⟩

theorem mono {rel' : Shape → Shape → Prop} (himp : ∀ a b, rel a b → rel' a b)
    {before after : Option Shape} (h : RowKeeps rel before after) :
    RowKeeps rel' before after := by
  intro shape hshape
  obtain ⟨later, hlater, hrel⟩ := h shape hshape
  exact ⟨later, hlater, himp _ _ hrel⟩

end RowKeeps

namespace Outline

theorem learned_grows {policy : Policy} (h : policy ≠ .restructure) (shape : Shape)
    (row : Option Shape) : RowKeeps Shape.Grows row (some (learned policy shape row)) := by
  rintro existing rfl
  refine ⟨_, rfl, ?_⟩
  cases policy with
  | keep => exact .refl existing
  | upgrade =>
      by_cases hplain : existing.isPlain = true
      · exact .of_isPlain hplain _
      · simp only [learned, Policy.replaces, Shape.yieldsTo, hplain, Bool.false_and]
        exact .refl existing
  | restructure => exact absurd rfl h

end Outline

namespace Edit

def Adds : Edit → Prop
  | .learn policy _ _ | .assume policy _ _ => policy ≠ .restructure
  | .write _ leaf => leaf.isPlain = true
  | .remark _ => True

theorem Adds.grows {edit : Edit} (h : edit.Adds) (row : Option Shape) :
    RowKeeps Shape.Grows row (edit.onRow row) := by
  cases edit with
  | learn policy name shape => exact Outline.learned_grows h shape row
  | assume policy name shape => exact Outline.learned_grows h shape row
  | write path leaf =>
      rintro shape rfl
      exact ⟨_, rfl, Shape.grows_put h shape path.tail⟩
  | remark notice => exact .refl .refl row

theorem foldl_onRow_grows {edits : List Edit} (h : ∀ edit ∈ edits, edit.Adds)
    (row : Option Shape) : RowKeeps Shape.Grows row (edits.foldl onRow row) :=
  List.foldlRecOn edits onRow (.refl .refl row) fun after hafter edit hedit =>
    hafter.trans .trans ((h edit hedit).grows after)

theorem isSome_onRow_some (edit : Edit) (shape : Shape) : (edit.onRow (some shape)).isSome := by
  cases edit <;> rfl

end Edit

namespace Finding

def isItems : Finding → Bool
  | .itemsPrinted .. => true
  | _ => false

theorem adds_writeAt {leaf : Shape} (h : leaf.isPlain = true) (path : NamePath)
    (further : List Step) : (writeAt path further leaf).Adds := by
  unfold writeAt
  split
  · exact h
  · trivial

theorem adds_of_mem_editsOfPath {policy : Policy} {path : NamePath} {leaf : Shape} {edit : Edit}
    (hpolicy : policy ≠ .restructure) (hleaf : leaf.isPlain = true)
    (h : edit ∈ editsOfPath policy path leaf) : edit.Adds := by
  unfold editsOfPath at h
  split at h
  · obtain rfl := List.mem_singleton.mp h
    exact Policy.noConfusion
  · rcases List.mem_cons.mp h with rfl | h
    · exact hpolicy
    · obtain rfl := List.mem_singleton.mp h
      exact adds_writeAt hleaf path []

theorem adds_of_mem_edits {settings : Settings} {finding : Finding} {edit : Edit}
    (hitems : finding.isItems = false) (h : edit ∈ finding.edits settings) : edit.Adds := by
  cases finding with
  | assigned path => exact adds_of_mem_editsOfPath Policy.noConfusion rfl h
  | printed path => exact adds_of_mem_editsOfPath Policy.noConfusion rfl h
  | looped list =>
      obtain rfl := List.mem_singleton.mp h
      exact Policy.noConfusion
  | entriesLooped mapping =>
      obtain rfl := List.mem_singleton.mp h
      exact Policy.noConfusion
  | tested path =>
      simp only [edits] at h
      split at h
      · obtain rfl := List.mem_singleton.mp h
        exact Policy.noConfusion
      · exact adds_of_mem_editsOfPath Policy.noConfusion rfl h
  | indexed path =>
      simp only [edits, List.mem_cons, List.not_mem_nil, or_false] at h
      rcases h with rfl | rfl
      · exact Policy.noConfusion
      · split
        · exact adds_writeAt rfl path.base _
        · trivial
  | itemsPrinted list fields => cases hitems

theorem onRow_itemsPrinted (settings : Settings) (row : Option Shape) (list : String)
    (fields : List String) :
    onRow settings row (.itemsPrinted list fields) =
      if fields.isEmpty then row
      else some (Outline.learned .restructure (sampleItems fields) row) := by
  simp only [onRow, edits]
  split <;> rfl

theorem onRow_grows (settings : Settings) {finding : Finding} (h : finding.isItems = false)
    (row : Option Shape) : RowKeeps Shape.Grows row (finding.onRow settings row) :=
  Edit.foldl_onRow_grows (fun _ => adds_of_mem_edits h) row

theorem onRow_lasts (settings : Settings) (finding : Finding) (row : Option Shape) :
    RowKeeps Shape.Lasts row (finding.onRow settings row) := by
  cases hitems : finding.isItems with
  | false => exact (onRow_grows settings hitems row).mono fun _ _ => .inl
  | true =>
      cases finding with
      | itemsPrinted list fields =>
          rintro existing rfl
          rw [onRow_itemsPrinted]
          split
          · exact ⟨existing, rfl, .refl existing⟩
          · refine ⟨_, rfl, ?_⟩
            simp only [Outline.learned, Policy.replaces]
            by_cases hplain : existing.isPlain = true
            · exact .inl (.of_isPlain hplain _)
            · by_cases hlist : existing.isPlainList = true
              · simp only [hlist, Bool.or_true, if_true]
                exact .inr ⟨hlist, _, rfl⟩
              · simp only [hplain, hlist, Bool.or_false]
                exact .refl existing
      | _ => cases hitems

/-- Over a run of findings a row only grows. -/
theorem foldl_onRow_grows (settings : Settings) {findings : List Finding}
    (h : ∀ finding ∈ findings, finding.isItems = false) (row : Option Shape) :
    RowKeeps Shape.Grows row (findings.foldl (onRow settings) row) :=
  List.foldlRecOn findings (onRow settings) (.refl .refl row) fun after hafter finding hmem =>
    hafter.trans .trans (onRow_grows settings (h finding hmem) after)

theorem foldl_onRow_lasts (settings : Settings) (findings : List Finding) (row : Option Shape) :
    RowKeeps Shape.Lasts row (findings.foldl (onRow settings) row) :=
  List.foldlRecOn findings (onRow settings) (.refl .refl row) fun after hafter finding _ =>
    hafter.trans .trans (onRow_lasts settings finding after)

theorem isSome_editsOfPath (policy : Policy) (path : NamePath) (leaf : Shape)
    (row : Option Shape) :
    ((editsOfPath policy path leaf).foldl Edit.onRow row).isSome := by
  cases hbare : path.isBare with
  | true =>
      rw [foldl_editsOfPath_bare hbare]
      rfl
  | false =>
      rw [foldl_editsOfPath_dotted hbare]
      exact Edit.isSome_onRow_some _ _

theorem isSome_onRow (settings : Settings) {finding : Finding} (h : finding.isItems = false)
    (row : Option Shape) : (finding.onRow settings row).isSome := by
  cases finding with
  | assigned path => exact isSome_editsOfPath ..
  | printed path => exact isSome_editsOfPath ..
  | looped list => rfl
  | entriesLooped mapping => rfl
  | tested path =>
      rw [onRow_tested]
      exact isSome_editsOfPath ..
  | indexed path => exact Edit.isSome_onRow_some _ _
  | itemsPrinted list fields => cases h

/-- What one use of a run brings about holds at its end, if growth cannot undo it. -/
theorem foldl_onRow_of_mem {settings : Settings} {findings : List Finding} {finding : Finding}
    {holds : Shape → Prop}
    (hgrows : ∀ before after, before.Grows after → holds before → holds after)
    (hitems : ∀ use ∈ findings, use.isItems = false) (hmem : finding ∈ findings)
    (hfinding : ∀ row, ∃ shape, finding.onRow settings row = some shape ∧ holds shape)
    (row : Option Shape) :
    ∃ shape, findings.foldl (onRow settings) row = some shape ∧ holds shape := by
  obtain ⟨front, back, rfl⟩ := List.append_of_mem hmem
  obtain ⟨shape, hshape, hholds⟩ := hfinding (front.foldl (onRow settings) row)
  have hback : ∀ use ∈ back, use.isItems = false := fun use huse => hitems use (by simp [huse])
  obtain ⟨later, hlater, hgrown⟩ := foldl_onRow_grows settings hback (some shape) shape rfl
  rw [List.foldl_append, List.foldl_cons, hshape]
  exact ⟨later, hlater, hgrows shape later hgrown hholds⟩

end Finding

theorem Pass.isItems_of_mem_uses {pass : Pass} {template : List Char} {finding : Finding}
    (h : pass ≠ .loopItems) (hmem : finding ∈ pass.uses template) : finding.isItems = false := by
  cases pass with
  | loopItems => exact absurd rfl h
  | condition =>
      obtain ⟨expression, -, hexpression⟩ := List.mem_flatMap.mp hmem
      obtain ⟨path, -, rfl⟩ := List.mem_map.mp hexpression
      rfl
  | _ =>
      obtain ⟨_, -, rfl⟩ := List.mem_map.mp hmem
      rfl

/-! ## Outlines that last -/

/-- The part of an outline at a path whose first step is the name of a variable. -/
def Outline.get? (outline : Outline) : (path : List Step) → Option Shape
  | .key root :: rest => (outline.find? root).bind (·.get? rest)
  | _ => none

theorem Outline.get?_eq_some {outline : Outline} {path : List Step} {part : Shape}
    (h : outline.get? path = some part) :
    ∃ root rest shape, path = .key root :: rest ∧ outline.find? root = some shape ∧
      shape.get? rest = some part := by
  match path with
  | .key root :: rest =>
      obtain ⟨shape, hshape, hpart⟩ := Option.bind_eq_some_iff.mp h
      exact ⟨root, rest, shape, rfl, hshape, hpart⟩
  | .index i :: rest => cases h
  | [] => cases h

theorem Outline.get?_key {outline : Outline} {root : String} {shape : Shape}
    (h : outline.find? root = some shape) (rest : List Step) :
    outline.get? (.key root :: rest) = shape.get? rest := by
  simp [get?, h]

namespace Draft

theorem names_prefix_run (settings : Settings) (template : List Char) (draft : Draft)
    (pass : Pass) : draft.outline.names <+: (draft.run settings template pass).outline.names := by
  unfold run
  induction pass.findings settings template generalizing draft with
  | nil => exact List.prefix_rfl
  | cons finding rest ih => exact (names_prefix_add settings draft finding).trans (ih _)

theorem run_lasts (settings : Settings) (template : List Char) (draft : Draft) (pass : Pass)
    (name : String) :
    RowKeeps Shape.Lasts (draft.outline.find? name)
      ((draft.run settings template pass).outline.find? name) := by
  rw [run, find?_foldl_add]
  exact Finding.foldl_onRow_lasts settings _ _

theorem run_grows (settings : Settings) (template : List Char) (draft : Draft) {pass : Pass}
    (h : pass ≠ .loopItems) (name : String) :
    RowKeeps Shape.Grows (draft.outline.find? name)
      ((draft.run settings template pass).outline.find? name) := by
  rw [run, find?_foldl_add]
  refine Finding.foldl_onRow_grows settings ?_ _
  intro finding hfinding
  have huse := (List.mem_filter.mp (List.mem_filter.mp hfinding).1).1
  exact Pass.isItems_of_mem_uses h huse

/-- Whatever a draft holds, a pass removes no row and moves none. An object stays an object with
its keys in their order, and an array stays an array. An array gets shorter only in the pass over
loop bodies, and only if it is the whole value of a variable and all its items are plain. -/
theorem run_keeps_structure (settings : Settings) (template : List Char) (draft : Draft)
    (pass : Pass) :
    draft.outline.names <+: (draft.run settings template pass).outline.names ∧
    (∀ path fields, draft.outline.get? path = some (.object fields) →
      ∃ more, (draft.run settings template pass).outline.get? path = some (.object more) ∧
        Fields.names fields <+: Fields.names more) ∧
    (∀ path items, draft.outline.get? path = some (.array items) →
      ∃ more, (draft.run settings template pass).outline.get? path = some (.array more) ∧
        (items.length ≤ more.length ∨
          pass = .loopItems ∧ (∃ root, path = [.key root]) ∧ items.all Shape.isPlain = true)) := by
  refine ⟨names_prefix_run settings template draft pass, ?_, ?_⟩
  · intro path fields hpath
    obtain ⟨root, rest, shape, rfl, hshape, hpart⟩ := Outline.get?_eq_some hpath
    obtain ⟨later, hlater, hlasts⟩ := run_lasts settings template draft pass root shape hshape
    rw [Outline.get?_key hlater]
    exact hlasts.get?_object hpart
  · intro path items hpath
    obtain ⟨root, rest, shape, rfl, hshape, hpart⟩ := Outline.get?_eq_some hpath
    by_cases hpass : pass = .loopItems
    · obtain ⟨later, hlater, hlasts⟩ := run_lasts settings template draft pass root shape hshape
      rw [Outline.get?_key hlater]
      obtain ⟨more, hmore, hlength | ⟨rfl, hplain⟩⟩ := hlasts.get?_array hpart
      · exact ⟨more, hmore, .inl hlength⟩
      · exact ⟨more, hmore, .inr ⟨hpass, ⟨root, rfl⟩, hplain⟩⟩
    · obtain ⟨later, hlater, hgrows⟩ := run_grows settings template draft hpass root shape hshape
      rw [Outline.get?_key hlater]
      obtain ⟨_, hmore, more, rfl, hlength⟩ := hgrows rest _ hpart
      exact ⟨more, hmore, .inl hlength⟩

/-- Printing `{{ a.c }}` keeps the key `b` that was there. -/
theorem run_keeps_structure_printed :
    ∃ more, (run {} "{{ a.c }}".toList
        { outline := ⟨[("a", .object [("b", Shape.printed)])]⟩ } .output).outline.get? [.key "a"] =
          some (.object more) ∧ ["b"] <+: Fields.names more :=
  (run_keeps_structure {} "{{ a.c }}".toList
    { outline := ⟨[("a", .object [("b", Shape.printed)])]⟩ } .output).2.1 [.key "a"] _ rfl

end Draft

end TemplateShape
