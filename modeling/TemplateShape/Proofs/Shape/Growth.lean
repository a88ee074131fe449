import TemplateShape.Shape.Write
import TemplateShape.Proofs.Fields
import TemplateShape.Proofs.Padding

/-! # Growth of shapes

What a write leaves standing: every address stays, an object keeps its keys in their order, and an
array keeps its places. -/

namespace TemplateShape

namespace Shape

/-! ## Parts of a shape -/

@[simp] theorem isPlain_printed : printed.isPlain = true := rfl

@[simp] theorem isPlain_tested : tested.isPlain = true := rfl

@[simp] theorem get?_nil (shape : Shape) : shape.get? [] = some shape := rfl

theorem get?_cons (shape : Shape) (step : Step) (rest : List Step) :
    shape.get? (step :: rest) = (child? step shape).bind (get? · rest) := rfl

@[simp] theorem child?_key_object (name : String) (fields : Fields Shape) :
    child? (.key name) (.object fields) = Fields.find? fields name := rfl

@[simp] theorem child?_index_array (i : Nat) (items : List Shape) :
    child? (.index i) (.array items) = items[i]? := rfl

@[simp] theorem child?_key_array (name : String) (items : List Shape) :
    child? (.key name) (.array items) = none := rfl

@[simp] theorem child?_index_object (i : Nat) (fields : Fields Shape) :
    child? (.index i) (.object fields) = none := rfl

theorem child?_of_isPlain {shape : Shape} (h : shape.isPlain = true) (step : Step) :
    child? step shape = none := by
  cases shape <;> cases step <;> first | rfl | simp [isPlain] at h

theorem get?_of_isPlain {shape part : Shape} {path : List Step} (h : shape.isPlain = true)
    (hpart : shape.get? path = some part) : path = [] ∧ part = shape := by
  cases path with
  | nil => exact ⟨rfl, (Option.some.inj hpart).symm⟩
  | cons step rest => simp [get?_cons, child?_of_isPlain h] at hpart

/-! ## Growth -/

/-- A container is followed by one of its kind that lacks nothing: the keys of an object come
first and in their order, and an array does not get shorter. -/
def Extends : Shape → Shape → Prop
  | .object fields, later =>
      ∃ more, later = .object more ∧ Fields.names fields <+: Fields.names more
  | .array items, later => ∃ more, later = .array more ∧ items.length ≤ more.length
  | .text _, _ | .flag _, _ => True

theorem Extends.refl (shape : Shape) : shape.Extends shape := by
  cases shape with
  | object fields => exact ⟨fields, rfl, List.prefix_rfl⟩
  | array items => exact ⟨items, rfl, Nat.le_refl _⟩
  | text value => trivial
  | flag value => trivial

theorem Extends.of_isPlain {shape : Shape} (h : shape.isPlain = true) (later : Shape) :
    shape.Extends later := by
  cases shape with
  | object fields => cases h
  | array items => cases h
  | text value => trivial
  | flag value => trivial

theorem Extends.trans {first second third : Shape} (h : first.Extends second)
    (h' : second.Extends third) : first.Extends third := by
  cases first with
  | object fields =>
      obtain ⟨more, rfl, hnames⟩ := h
      obtain ⟨most, rfl, hnames'⟩ := h'
      exact ⟨most, rfl, hnames.trans hnames'⟩
  | array items =>
      obtain ⟨more, rfl, hlength⟩ := h
      obtain ⟨most, rfl, hlength'⟩ := h'
      exact ⟨most, rfl, Nat.le_trans hlength hlength'⟩
  | text value => trivial
  | flag value => trivial

/-- Every address of the first shape is one of the second, and what stands there is extended. -/
def Grows (before after : Shape) : Prop :=
  ∀ path part, before.get? path = some part →
    ∃ later, after.get? path = some later ∧ part.Extends later

theorem Grows.refl (shape : Shape) : shape.Grows shape :=
  fun _ part h => ⟨part, h, .refl part⟩

theorem Grows.trans {first second third : Shape} (h : first.Grows second)
    (h' : second.Grows third) : first.Grows third := by
  intro path part hpart
  obtain ⟨later, hlater, hext⟩ := h path part hpart
  obtain ⟨last, hlast, hext'⟩ := h' path later hlater
  exact ⟨last, hlast, hext.trans hext'⟩

theorem Grows.of_isPlain {shape : Shape} (h : shape.isPlain = true) (after : Shape) :
    shape.Grows after := by
  intro path part hpart
  obtain ⟨rfl, rfl⟩ := get?_of_isPlain h hpart
  exact ⟨after, rfl, .of_isPlain h after⟩

/-- A container grows if it is extended and each of its parts grows. -/
theorem Grows.of_child? {before after : Shape} (hext : before.Extends after)
    (hparts : ∀ step part, child? step before = some part →
      ∃ later, child? step after = some later ∧ part.Grows later) : before.Grows after := by
  intro path part hpart
  cases path with
  | nil =>
      obtain rfl : before = part := Option.some.inj hpart
      exact ⟨after, rfl, hext⟩
  | cons step rest =>
      rw [get?_cons] at hpart
      cases hchild : child? step before with
      | none => simp [hchild] at hpart
      | some child =>
          obtain ⟨later, hlater, hgrows⟩ := hparts step child hchild
          rw [hchild] at hpart
          obtain ⟨last, hlast, hext'⟩ := hgrows rest part hpart
          exact ⟨last, by rw [get?_cons, hlater]; exact hlast, hext'⟩

theorem Grows.alter {fields : Fields Shape} (name : String) (fresh : Shape) {f : Shape → Shape}
    (h : ∀ part : Shape, part.Grows (f part)) :
    (object fields).Grows (.object (Fields.alter name fresh f fields)) := by
  refine .of_child? ⟨_, rfl, Fields.names_prefix_alter name fresh f fields⟩ ?_
  intro step part hpart
  cases step with
  | index i => simp at hpart
  | key key =>
      rw [child?_key_object] at hpart
      rw [child?_key_object, Fields.find?_alter]
      by_cases hkey : key = name
      · subst hkey
        rw [if_pos rfl, hpart]
        exact ⟨f part, rfl, h part⟩
      · rw [if_neg hkey]
        exact ⟨part, hpart, .refl part⟩

theorem Grows.pad {items : List Shape} (i : Nat) (filler : Shape) {f : Shape → Shape}
    (h : ∀ part : Shape, part.Grows (f part)) :
    (array items).Grows (.array ((items.rightpad (i + 1) filler).modify i f)) := by
  refine .of_child? ⟨_, rfl, by rw [length_rightpad_modify]; omega⟩ ?_
  intro step part hpart
  cases step with
  | key name => simp at hpart
  | index j =>
      rw [child?_index_array] at hpart
      have hlt : j < items.length := (List.getElem?_eq_some_iff.mp hpart).1
      rw [child?_index_array, getElem?_rightpad_modify]
      by_cases hij : j = i
      · subst hij
        rw [if_pos rfl, hpart]
        exact ⟨f part, rfl, h part⟩
      · rw [if_neg hij, if_pos hlt]
        exact ⟨part, hpart, .refl part⟩

/-! ## Writes -/

theorem put_nil (shape leaf : Shape) : shape.put [] leaf = shape.replaced leaf := rfl

theorem put_nil_of_isPlain {shape : Shape} (h : shape.isPlain = true) (leaf : Shape) :
    shape.put [] leaf = leaf := by
  simp [put_nil, replaced, Shape.isContainer, h]

theorem put_nil_of_not_isPlain {shape leaf : Shape} (h : shape.isPlain = false)
    (hleaf : leaf.isPlain = true) : shape.put [] leaf = shape := by
  simp [put_nil, replaced, Shape.isContainer, h, hleaf]

theorem put_of_isPlain {shape : Shape} (h : shape.isPlain = true) (step : Step) (rest : List Step)
    (leaf : Shape) :
    shape.put (step :: rest) leaf = (containerOf step).put (step :: rest) leaf := by
  cases step <;> cases shape <;> first | rfl | simp [isPlain] at h

theorem put_freshPlace (rest : List Step) (leaf : Shape) :
    (freshPlace rest).put rest leaf = printed.put rest leaf := by
  cases rest with
  | nil => rfl
  | cons step rest => exact (put_of_isPlain isPlain_printed step rest leaf).symm

/-- What a write does at its first step: it goes on in an object, or behind an index in an array, or
an array drops it. A plain value counts as an empty container here. -/
theorem put_cases (shape : Shape) (step : Step) (rest : List Step) (leaf : Shape) :
    shape.put (step :: rest) leaf =
        .object (Fields.alter step.text (freshPlace rest) (fun part => part.put rest leaf)
          (shape.fields?.getD [])) ∨
      (∃ i, step = .index i ∧ shape.put (step :: rest) leaf =
        .array (((shape.items?.getD []).rightpad (i + 1) printed).modify i
          fun part => part.put rest leaf)) ∨
      (∃ name, step = .key name) ∧ ∃ items, shape = .array items ∧
        shape.put (step :: rest) leaf = .array items := by
  cases step with
  | key name =>
      cases shape with
      | array items => exact .inr (.inr ⟨⟨name, rfl⟩, items, rfl, rfl⟩)
      | _ => exact .inl rfl
  | index i =>
      cases shape with
      | object fields => exact .inl rfl
      | _ => exact .inr (.inl ⟨i, rfl, rfl⟩)

theorem isPlain_put_cons (shape : Shape) (step : Step) (rest : List Step) (leaf : Shape) :
    (shape.put (step :: rest) leaf).isPlain = false := by
  rcases put_cases shape step rest leaf with hput | ⟨i, -, hput⟩ | ⟨-, items, -, hput⟩ <;>
    rw [hput] <;> rfl

theorem child?_key_eq (shape : Shape) (name : String) :
    child? (.key name) shape = Fields.find? (shape.fields?.getD []) name := by
  cases shape <;> rfl

theorem grows_put_nil {leaf : Shape} (h : leaf.isPlain = true) (shape : Shape) :
    shape.Grows (shape.put [] leaf) := by
  cases hshape : shape.isPlain with
  | true => exact .of_isPlain hshape _
  | false =>
      rw [put_nil_of_not_isPlain hshape h]
      exact .refl shape

/-- Writing a plain leaf loses nothing. -/
theorem grows_put {leaf : Shape} (h : leaf.isPlain = true) (shape : Shape) (path : List Step) :
    shape.Grows (shape.put path leaf) := by
  induction path generalizing shape with
  | nil => exact grows_put_nil h shape
  | cons step rest ih =>
      cases shape with
      | object fields => exact .alter step.text (freshPlace rest) ih
      | array items =>
          cases step with
          | key name => exact .refl _
          | index i => exact .pad i printed ih
      | text value => exact .of_isPlain rfl _
      | flag value => exact .of_isPlain rfl _

end Shape

end TemplateShape
