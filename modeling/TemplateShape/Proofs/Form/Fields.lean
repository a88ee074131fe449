import TemplateShape.Proofs.Form.Address

/-! # Fields of a variable

A variable has one field that shows its whole value, or one for each value of an object that is laid
out inline. -/

namespace TemplateShape.Form

theorem innerName_of_ne {name : String} (h : name ≠ "") (key : String) :
    innerName name key = name ++ "." ++ key := by
  rw [innerName, if_neg (by simpa using h)]

@[simp] theorem name_innerField (name key : String) (value : Json) :
    (innerField name key value).name = innerName name key := rfl

theorem setValue_innerName {name : String} (hne : name ≠ "") (hpoint : '.' ∉ name.toList)
    (key : String) (values : Fields Json) (leaf : Json) :
    setValue values (innerName name key) leaf =
      Fields.alter name .null (placeAt leaf (parts key)) values := by
  rw [innerName_of_ne hne, setValue_append_point hpoint]

/-- A variable has one field for the whole value, under its own name, unless the value is an object
that is laid out inline. -/
theorem fieldsOfVariable_cases (name : String) (value : Json) :
    (∃ field, fieldsOfVariable name value = [field] ∧ field.name = name ∧ field.value = value ∧
      field.kind = Kind.ofValue value ∧ ∀ fields, value = .obj fields → isInline fields = false) ∨
    ∃ fields, value = .obj fields ∧ isInline fields = true ∧
      fieldsOfVariable name value = fields.map fun (key, inner) => innerField name key inner := by
  cases value with
  | obj fields =>
      by_cases hinline : isInline fields = true
      · exact .inr ⟨fields, rfl, hinline, by simp [fieldsOfVariable, hinline]⟩
      · refine .inl ⟨jsonField name "Object" (.obj fields), by simp [fieldsOfVariable, hinline],
          rfl, rfl, rfl, ?_⟩
        intro others heq
        simpa [← Json.obj.inj heq] using hinline
  | _ => exact .inl ⟨_, rfl, rfl, rfl, rfl, by simp⟩

theorem mem_ofValues_iff {values : Fields Json} {field : Field} :
    field ∈ ofValues values ↔
      ∃ name value, (name, value) ∈ values ∧ field ∈ fieldsOfVariable name value := by
  simp only [ofValues, List.mem_flatMap, Prod.exists]

/-- The names of the fields of a variable lead back to where their values are: the variable has a name
without points, and so have the values of an object that is laid out inline. -/
structure Addressable (name : String) (value : Json) : Prop where
  ne_empty : name ≠ ""
  point_notMem : '.' ∉ name.toList
  point_notMem_key : ∀ fields, value = .obj fields → isInline fields = true →
    ∀ key ∈ Fields.names fields, '.' ∉ key.toList

theorem isSimple_of_find? {fields : Fields Json} (h : isInline fields = true) {key : String}
    {value : Json} (hvalue : Fields.find? fields key = some value) : isSimple value = true := by
  have hall := (Bool.and_eq_true_iff.mp h).2
  exact List.all_eq_true.mp hall (key, value) (Fields.mem_of_find? hvalue)

end TemplateShape.Form
