import TemplateShape.Proofs.Form.Address
import TemplateShape.Proofs.Padding

/-! # Reading and writing under one dotted name

A dotted name is read by the rules by which it is written: a part leads into an array if it spells
an index, and into an object as a key. Reading and writing then obey the laws of a lens. -/

namespace TemplateShape.Form

/-! ## Reading -/

def inside? (value : Json) (part : String) : Option Json :=
  match value with
  | .arr items => (index? part).bind (items[·]?)
  | .obj fields => Fields.find? fields part
  | _ => none

def valueAt? (value : Json) : (parts : List String) → Option Json
  | [] => some value
  | part :: rest => (inside? value part).bind (valueAt? · rest)

/-- The value under a dotted name, whose first part is the name of a variable. -/
def value? (values : Fields Json) (name : String) : Option Json :=
  match parts name with
  | [] => none
  | root :: rest => (Fields.find? values root).bind (valueAt? · rest)

theorem valueAt?_cons (value : Json) (part : String) (rest : List String) :
    valueAt? value (part :: rest) = (inside? value part).bind (valueAt? · rest) := rfl

theorem inside?_obj (fields : Fields Json) (part : String) :
    inside? (.obj fields) part = Fields.find? fields part := rfl

theorem inside?_arr {part : String} {i : Nat} (h : index? part = some i) (items : List Json) :
    inside? (.arr items) part = items[i]? := by
  rw [inside?, h]
  rfl

/-! ## One part -/

theorem placeAt_arr {part : String} {i : Nat} (h : index? part = some i) (leaf : Json)
    (rest : List String) (items : List Json) :
    placeAt leaf (part :: rest) (.arr items) =
      .arr ((items.rightpad (i + 1) .null).modify i (placeAt leaf rest)) := by
  simp only [placeAt, h]

theorem placeAt_obj (leaf : Json) (part : String) (rest : List String) (fields : Fields Json) :
    placeAt leaf (part :: rest) (.obj fields) =
      .obj (Fields.alter part .null (placeAt leaf rest) fields) := rfl

/-- A part that spells an index finds an array, or a part finds an object, or an object is made for
it. -/
theorem part_cases (value : Json) (part : String) :
    (∃ items i, value = .arr items ∧ index? part = some i) ∨ (∃ fields, value = .obj fields) ∨
      inside? value part = none ∧ ∀ leaf rest,
        placeAt leaf (part :: rest) value = .obj [(part, placeAt leaf rest .null)] := by
  cases value with
  | obj fields => exact .inr (.inl ⟨fields, rfl⟩)
  | arr items =>
      cases hindex : index? part with
      | some i => exact .inl ⟨items, i, rfl, rfl⟩
      | none =>
          refine .inr (.inr ⟨by rw [inside?, hindex]; rfl, ?_⟩)
          intro leaf rest
          simp only [placeAt, hindex]
  | null | bool value | num value | str text =>
      exact .inr (.inr ⟨rfl, fun _ _ => rfl⟩)

/-! ## The laws for the parts of a name -/

/-- What is written is read. -/
theorem valueAt?_placeAt (leaf value : Json) (parts : List String) :
    valueAt? (placeAt leaf parts value) parts = some leaf := by
  induction parts generalizing value with
  | nil => rfl
  | cons part rest ih =>
      rcases part_cases value part with ⟨items, i, rfl, hindex⟩ | ⟨fields, rfl⟩ | ⟨-, hplace⟩
      · rw [placeAt_arr hindex, valueAt?_cons, inside?_arr hindex, getElem?_rightpad_modify,
          if_pos rfl]
        exact ih _
      · rw [placeAt_obj, valueAt?_cons, inside?_obj, Fields.find?_alter, if_pos rfl]
        exact ih _
      · rw [hplace, valueAt?_cons, inside?_obj, Fields.find?_cons, if_pos rfl]
        exact ih _

/-- The second of two writes is the only one that counts. -/
theorem placeAt_placeAt (first second value : Json) (parts : List String) :
    placeAt second parts (placeAt first parts value) = placeAt second parts value := by
  induction parts generalizing value with
  | nil => rfl
  | cons part rest ih =>
      rcases part_cases value part with ⟨items, i, rfl, hindex⟩ | ⟨fields, rfl⟩ | ⟨-, hplace⟩
      · rw [placeAt_arr hindex, placeAt_arr hindex, placeAt_arr hindex,
          rightpad_modify_rightpad_modify]
        simp only [ih]
      · rw [placeAt_obj, placeAt_obj, placeAt_obj, Fields.alter_alter]
        simp only [ih]
      · rw [hplace, hplace, placeAt_obj, Fields.alter_cons, if_pos (beq_self_eq_true part), ih]

theorem placeAt_of_valueAt? {leaf value : Json} {parts : List String}
    (h : valueAt? value parts = some leaf) : placeAt leaf parts value = value := by
  induction parts generalizing value with
  | nil => exact (Option.some.inj h).symm
  | cons part rest ih =>
      obtain ⟨inner, hinner, hrest⟩ := Option.bind_eq_some_iff.mp h
      rcases part_cases value part with ⟨items, i, rfl, hindex⟩ | ⟨fields, rfl⟩ | ⟨hnone, -⟩
      · rw [inside?_arr hindex] at hinner
        rw [placeAt_arr hindex, rightpad_modify_eq_self hinner (ih hrest)]
      · rw [placeAt_obj, Fields.alter_eq_self hinner (ih hrest)]
      · rw [hnone] at hinner
        cases hinner

/-! ## The laws for dotted names -/

theorem parts_ne_nil (name : String) : parts name ≠ [] := by
  simp [parts, List.splitOn_ne_nil]

theorem obj_setValue (values : Fields Json) (name : String) (leaf : Json) :
    .obj (setValue values name leaf) = placeAt leaf (parts name) (.obj values) := by
  unfold setValue
  cases hparts : parts name with
  | nil => exact absurd hparts (parts_ne_nil name)
  | cons root rest => rfl

theorem value?_eq_valueAt? (values : Fields Json) (name : String) :
    value? values name = valueAt? (.obj values) (parts name) := by
  unfold value?
  cases hparts : parts name with
  | nil => exact absurd hparts (parts_ne_nil name)
  | cons root rest => rfl

/-- Reading and writing under a dotted name obey the laws of a lens: what is written is read, of two
writes the second is the only one that counts, and writing what is read changes nothing, neither the
order of keys nor the length of an array. -/
theorem dotted_names_are_lenses (values : Fields Json) (name : String) :
    (∀ leaf, value? (setValue values name leaf) name = some leaf) ∧
    (∀ first second,
      setValue (setValue values name first) name second = setValue values name second) ∧
    ∀ leaf, value? values name = some leaf → setValue values name leaf = values := by
  refine ⟨?_, ?_, ?_⟩
  · intro leaf
    rw [value?_eq_valueAt?, obj_setValue, valueAt?_placeAt]
  · intro first second
    apply Json.obj.inj
    rw [obj_setValue, obj_setValue, obj_setValue, placeAt_placeAt]
  · intro leaf h
    apply Json.obj.inj
    rw [value?_eq_valueAt?] at h
    rw [obj_setValue, placeAt_of_valueAt? h]

/-- An index may have a plus sign, and the part behind the last point may be empty. -/
theorem dotted_names_are_lenses_in_list :
    value? [("a", .arr [.null, .obj [("", .bool true)]])] "a.+1." = some (.bool true) ∧
    setValue [("a", .arr [.null, .obj [("", .bool true)]])] "a.+1." (.bool true) =
      [("a", .arr [.null, .obj [("", .bool true)]])] := by
  have hread : value? [("a", .arr [.null, .obj [("", .bool true)]])] "a.+1." =
      some (.bool true) := rfl
  exact ⟨hread, (dotted_names_are_lenses _ "a.+1.").2.2 _ hread⟩

end TemplateShape.Form
