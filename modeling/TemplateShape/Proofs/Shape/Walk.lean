import TemplateShape.Proofs.Path
import TemplateShape.Proofs.Shape.Growth

/-! # Where a write arrives

A write follows its path step by step. In an object an index stands for the key with its decimal
text, and an array takes no keys. So a write that meets an array at a key is dropped, and nothing of
it is left; every other write arrives at the end of its path. -/

namespace TemplateShape.Shape

/-! ## Walks -/

/-- The part that a step of a write leads to, if it is there: an object takes an index for the key
with its decimal text. -/
def slot? (shape : Shape) (step : Step) : Option Shape :=
  match shape, step with
  | .object fields, step => Fields.find? fields step.text
  | .array items, .index i => items[i]?
  | _, _ => none

def walk? (shape : Shape) : (path : List Step) → Option Shape
  | [] => some shape
  | step :: rest => (shape.slot? step).bind (walk? · rest)

@[simp] theorem slot?_object (fields : Fields Shape) (step : Step) :
    (object fields).slot? step = Fields.find? fields step.text := rfl

@[simp] theorem slot?_index_array (items : List Shape) (i : Nat) :
    (array items).slot? (.index i) = items[i]? := rfl

theorem slot?_of_isPlain {shape : Shape} (h : shape.isPlain = true) (step : Step) :
    shape.slot? step = none := by
  cases shape with
  | text value => rfl
  | flag value => rfl
  | object fields => simp [isPlain] at h
  | array items => simp [isPlain] at h

theorem walk?_cons (shape : Shape) (step : Step) (rest : List Step) :
    shape.walk? (step :: rest) = (shape.slot? step).bind (walk? · rest) := rfl

/-- A walk along the path meets an array at a key. -/
def Refuses (shape : Shape) (path : List Step) : Prop :=
  ∃ front name rest items, path = front ++ .key name :: rest ∧
    shape.walk? front = some (.array items)

theorem not_refuses_nil (shape : Shape) : ¬ shape.Refuses [] := by
  rintro ⟨front, name, rest, items, hpath, -⟩
  simp at hpath

/-- An array refuses a key itself, or the refusal lies in the part that the step leads to. -/
theorem refuses_cons {shape : Shape} {step : Step} {rest : List Step} :
    shape.Refuses (step :: rest) ↔
      (∃ name items, step = .key name ∧ shape = .array items) ∨
        ∃ part, shape.slot? step = some part ∧ part.Refuses rest := by
  constructor
  · rintro ⟨front, name, behind, items, hpath, hwalk⟩
    cases front with
    | nil =>
        obtain ⟨rfl, rfl⟩ := List.cons.inj hpath
        exact .inl ⟨name, items, rfl, Option.some.inj hwalk⟩
    | cons first front =>
        obtain ⟨rfl, rfl⟩ := List.cons.inj hpath
        obtain ⟨part, hpart, hrest⟩ := Option.bind_eq_some_iff.mp hwalk
        exact .inr ⟨part, hpart, front, name, behind, items, rfl, hrest⟩
  · rintro (⟨name, items, rfl, rfl⟩ | ⟨part, hpart, front, name, behind, items, rfl, hrest⟩)
    · exact ⟨[], name, rest, items, rfl, rfl⟩
    · refine ⟨step :: front, name, behind, items, rfl, ?_⟩
      rw [walk?_cons, hpart]
      exact hrest

theorem not_refuses_of_isPlain {shape : Shape} (h : shape.isPlain = true) (path : List Step) :
    ¬ shape.Refuses path := by
  cases path with
  | nil => exact not_refuses_nil shape
  | cons step rest =>
      rw [refuses_cons, slot?_of_isPlain h]
      rintro (⟨name, items, -, rfl⟩ | ⟨part, hpart, -⟩)
      · simp [isPlain] at h
      · cases hpart

/-! ## One step of a write -/

/-- A step finds an object, or an index finds an array, or a key finds an array. A plain value
counts as the container that the step needs. -/
theorem opened_cases (shape : Shape) (step : Step) :
    (∃ fields, shape.opened step = .object fields) ∨
      (∃ i items, step = .index i ∧ shape.opened step = .array items) ∨
      ∃ name items, step = .key name ∧ shape = .array items := by
  cases shape with
  | object fields => exact .inl ⟨fields, rfl⟩
  | array items =>
      cases step with
      | key name => exact .inr (.inr ⟨name, items, rfl, rfl⟩)
      | index i => exact .inr (.inl ⟨i, items, rfl, rfl⟩)
  | text value | flag value =>
      cases step with
      | key name => exact .inl ⟨[], rfl⟩
      | index i => exact .inr (.inl ⟨i, [], rfl, rfl⟩)

theorem put_object (fields : Fields Shape) (step : Step) (rest : List Step) (leaf : Shape) :
    (object fields).put (step :: rest) leaf =
      .object (Fields.alter step.text (freshPlace rest) (fun part => part.put rest leaf) fields) :=
  rfl

theorem put_index_array (items : List Shape) (i : Nat) (rest : List Step) (leaf : Shape) :
    (array items).put (.index i :: rest) leaf =
      .array ((items.rightpad (i + 1) printed).modify i fun part => part.put rest leaf) := rfl

theorem put_key_array (items : List Shape) (name : String) (rest : List Step) (leaf : Shape) :
    (array items).put (.key name :: rest) leaf = .array items := rfl

theorem put_opened (shape : Shape) (step : Step) (rest : List Step) (leaf : Shape) :
    (shape.opened step).put (step :: rest) leaf = shape.put (step :: rest) leaf := by
  unfold opened
  split
  · rename_i hplain
    exact (put_of_isPlain hplain step rest leaf).symm
  · rfl

theorem put_of_opened_object {shape : Shape} {step : Step} {fields : Fields Shape}
    (h : shape.opened step = .object fields) (rest : List Step) (leaf : Shape) :
    shape.put (step :: rest) leaf =
      .object (Fields.alter step.text (freshPlace rest) (fun part => part.put rest leaf)
        fields) := by
  rw [← put_opened, h, put_object]

theorem put_of_opened_array {shape : Shape} {i : Nat} {items : List Shape}
    (h : shape.opened (.index i) = .array items) (rest : List Step) (leaf : Shape) :
    shape.put (.index i :: rest) leaf =
      .array ((items.rightpad (i + 1) printed).modify i fun part => part.put rest leaf) := by
  rw [← put_opened, h, put_index_array]

theorem slot?_opened (shape : Shape) (step other : Step) :
    (shape.opened step).slot? other = shape.slot? other := by
  unfold opened
  split
  · rename_i hplain
    rw [slot?_of_isPlain hplain]
    cases step <;> cases other <;> rfl
  · rfl

theorem slot?_put_self {shape : Shape} {step : Step}
    (h : ¬ ∃ name items, step = .key name ∧ shape = .array items) (rest : List Step)
    (leaf : Shape) :
    (shape.put (step :: rest) leaf).slot? step =
      some (((shape.slot? step).getD printed).put rest leaf) := by
  rw [← slot?_opened shape step]
  rcases opened_cases shape step with ⟨fields, hopened⟩ | ⟨i, items, rfl, hopened⟩ | hkey
  · rw [put_of_opened_object hopened, hopened, slot?_object, slot?_object, Fields.find?_alter,
      if_pos rfl]
    cases Fields.find? fields step.text with
    | none => rw [Option.getD_none, Option.getD_none, put_freshPlace]
    | some part => rfl
  · rw [put_of_opened_array hopened, hopened, slot?_index_array, slot?_index_array,
      getElem?_rightpad_modify, if_pos rfl]
  · exact absurd hkey h

/-- A write changes nothing if it changes nothing in the part that its first step leads to. -/
theorem put_cons_eq_self {shape part : Shape} {step : Step} (hpart : shape.slot? step = some part)
    {rest : List Step} {leaf : Shape} (h : part.put rest leaf = part) :
    shape.put (step :: rest) leaf = shape := by
  cases shape with
  | object fields => exact congrArg object (Fields.alter_eq_self hpart h _)
  | array items =>
      cases step with
      | key name => rfl
      | index i => exact congrArg array (rightpad_modify_eq_self hpart h printed)
  | text value => cases hpart
  | flag value => cases hpart

/-! ## Dropped writes -/

/-- A refused write leaves nothing behind: it is refused below parts that were there. -/
theorem Refuses.put_eq_self {shape : Shape} {path : List Step} (h : shape.Refuses path)
    (leaf : Shape) : shape.put path leaf = shape := by
  induction path generalizing shape with
  | nil => exact absurd h (not_refuses_nil shape)
  | cons step rest ih =>
      rcases refuses_cons.mp h with ⟨name, items, rfl, rfl⟩ | ⟨part, hpart, hrest⟩
      · exact put_key_array items name rest leaf
      · exact put_cons_eq_self hpart (ih hrest)

/-- A write is reported as dropped if it is refused, and only then. -/
theorem isSome_blockedKey?_iff {shape : Shape} {path : List Step} :
    (shape.blockedKey? path).isSome = true ↔ shape.Refuses path := by
  induction path generalizing shape with
  | nil => simp [blockedKey?, not_refuses_nil]
  | cons step rest ih =>
      rw [refuses_cons]
      cases shape with
      | object fields =>
          have hblocked : (object fields).blockedKey? (step :: rest) =
              (Fields.find? fields step.text).bind (·.blockedKey? rest) := by
            cases step <;> rfl
          rw [hblocked, slot?_object]
          cases Fields.find? fields step.text <;> simp [ih]
      | array items =>
          cases step with
          | key name => simp [blockedKey?]
          | index i =>
              rw [slot?_index_array, blockedKey?]
              cases items[i]? <;> simp [ih]
      | text value | flag value => cases step <;> simp [blockedKey?, slot?]

instance (shape : Shape) (path : List Step) : Decidable (shape.Refuses path) :=
  decidable_of_iff _ isSome_blockedKey?_iff

/-! ## Writes that arrive -/

/-- A write that is not refused arrives in what stood at the end of its path, or in a plain
value. -/
theorem walk?_put {shape : Shape} {path : List Step} (h : ¬ shape.Refuses path) (leaf : Shape) :
    (shape.put path leaf).walk? path = some (((shape.walk? path).getD printed).put [] leaf) := by
  induction path generalizing shape with
  | nil => rfl
  | cons step rest ih =>
      rw [refuses_cons, not_or] at h
      rw [walk?_cons, slot?_put_self h.1, walk?_cons, Option.bind_some]
      cases hpart : shape.slot? step with
      | some part => exact ih fun hrest => h.2 ⟨part, hpart, hrest⟩
      | none =>
          -- The part is new, and nothing that is new refuses the rest of the path.
          rw [Option.getD_none, ih (not_refuses_of_isPlain isPlain_printed rest)]
          cases rest with
          | nil => rfl
          | cons next more =>
              rw [walk?_cons, slot?_of_isPlain isPlain_printed]
              rfl

/-- A write is dropped or it arrives. If its path meets an array at a key, the shape stays exactly
as it was. Otherwise the path can be walked to its end afterwards, and there stands the leaf, or the
container that stood there before if the leaf is plain. -/
theorem write_is_dropped_or_arrives (shape : Shape) (path : List Step) (leaf : Shape) :
    (shape.Refuses path → shape.put path leaf = shape) ∧
    (¬ shape.Refuses path →
      (shape.put path leaf).walk? path = some
        (match shape.walk? path with
        | some former => if former.isContainer && leaf.isPlain then former else leaf
        | none => leaf)) := by
  refine ⟨fun h => h.put_eq_self leaf, ?_⟩
  intro h
  rw [walk?_put h]
  cases shape.walk? path with
  | none => rfl
  | some former => rfl

/-- An array has no place for a key, but a key of one of its items can be written, even of an item
that is still missing. -/
theorem write_is_dropped_or_arrives_in_list :
    ((object [("a", .array [printed])]).Refuses [.key "a", .key "b"] ∧
      (object [("a", .array [printed])]).put [.key "a", .key "b"] tested =
        .object [("a", .array [printed])]) ∧
    ¬ (object [("a", .array [printed])]).Refuses [.key "a", .index 2, .key "b"] ∧
      ((object [("a", .array [printed])]).put [.key "a", .index 2, .key "b"] tested).walk?
        [.key "a", .index 2, .key "b"] = some tested := by
  have hkey : (object [("a", .array [printed])]).Refuses [.key "a", .key "b"] := by decide
  have hitem : ¬ (object [("a", .array [printed])]).Refuses [.key "a", .index 2, .key "b"] := by
    decide
  exact ⟨⟨hkey, (write_is_dropped_or_arrives _ _ tested).1 hkey⟩, hitem,
    (write_is_dropped_or_arrives _ _ tested).2 hitem⟩

end TemplateShape.Shape
