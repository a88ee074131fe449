import TemplateShape.Proofs.Form.Fields
import TemplateShape.Proofs.Json.Objects

/-! # The values that a form holds

Written one after the other where there was nothing, the fields of a form rebuild the values that
the form was made for. -/

namespace TemplateShape.Form

def Field.writeTo (values : Fields Json) (field : Field) : Fields Json :=
  setValue values field.name field.value

/-- The values that fields write, one after the other, where there was nothing. -/
def collect (fields : List Field) : Fields Json :=
  fields.foldl Field.writeTo []

section

variable {name : String}

theorem setValue_of_new {values : Fields Json} (hpoint : '.' ∉ name.toList)
    (hnew : name ∉ Fields.names values) (value : Json) :
    setValue values name value = values ++ [(name, value)] := by
  rw [setValue_of_notMem hpoint, Fields.alter_concat_of_notMem hnew]

theorem writeTo_innerField (hname : name ≠ "") (hpoint : '.' ∉ name.toList) (key : String)
    (inner : Json) (values : Fields Json) :
    (innerField name key inner).writeTo values =
      Fields.alter name .null (placeAt inner (parts key)) values :=
  setValue_innerName hname hpoint key values inner

theorem writeTo_innerField_of_new {values : Fields Json} (hname : name ≠ "")
    (hpoint : '.' ∉ name.toList) (hnew : name ∉ Fields.names values) {key : String}
    (hkey : '.' ∉ key.toList) (inner : Json) :
    (innerField name key inner).writeTo values = values ++ [(name, .obj [(key, inner)])] := by
  rw [writeTo_innerField hname hpoint, Fields.alter_concat_of_notMem hnew, placeAt_key_null hkey]

theorem writeTo_innerField_of_last {values front : Fields Json} (hname : name ≠ "")
    (hpoint : '.' ∉ name.toList) (hnew : name ∉ Fields.names values) {key : String}
    (hkey : '.' ∉ key.toList) (hfresh : key ∉ Fields.names front) (inner : Json) :
    (innerField name key inner).writeTo (values ++ [(name, .obj front)]) =
      values ++ [(name, .obj (front ++ [(key, inner)]))] := by
  rw [writeTo_innerField hname hpoint, Fields.alter_concat hnew, placeAt_key_obj hkey,
    Fields.alter_concat_of_notMem hfresh]

theorem foldl_innerField {values front rest : Fields Json} (hname : name ≠ "")
    (hpoint : '.' ∉ name.toList) (hnew : name ∉ Fields.names values)
    (hdistinct : Fields.Distinct (front ++ rest))
    (hkeys : ∀ key ∈ Fields.names rest, '.' ∉ key.toList) :
    (rest.map fun (key, inner) => innerField name key inner).foldl Field.writeTo
        (values ++ [(name, .obj front)]) = values ++ [(name, .obj (front ++ rest))] := by
  induction rest generalizing front with
  | nil => simp
  | cons field rest ih =>
      rcases field with ⟨key, inner⟩
      rcases List.forall_mem_cons.mp hkeys with ⟨hkey, hrest⟩
      have hnext : front ++ (key, inner) :: rest = front ++ [(key, inner)] ++ rest := by simp
      rw [List.map_cons, List.foldl_cons,
        writeTo_innerField_of_last hname hpoint hnew hkey hdistinct.notMem_of_append, hnext]
      exact ih (hnext ▸ hdistinct) hrest

/-- The fields of a new variable add it with its value, unless that is an empty object, which has no
fields. -/
theorem foldl_fieldsOfVariable {values : Fields Json} {value : Json} (h : Addressable name value)
    (hnew : name ∉ Fields.names values) (htidy : value.Tidy) :
    (fieldsOfVariable name value).foldl Field.writeTo values =
      values ++ [(name, value)].filter fun field => !field.2.isEmptyObject := by
  rcases fieldsOfVariable_cases name value with
    ⟨field, hfields, hfield, hvalue, -, hother⟩ | ⟨fields, rfl, hinline, hfields⟩
  · have hfilled : value.isEmptyObject = false := by
      cases value with
      | obj fields =>
          cases fields with
          | nil => exact absurd (hother [] rfl) (by decide)
          | cons entry rest => rfl
      | _ => rfl
    rw [hfields, List.foldl_cons, List.foldl_nil, Field.writeTo, hfield, hvalue,
      setValue_of_new h.point_notMem hnew]
    simp [hfilled]
  · rw [hfields]
    cases fields with
    | nil => simp [Json.isEmptyObject]
    | cons entry rest =>
        rcases entry with ⟨key, inner⟩
        rcases List.forall_mem_cons.mp (h.point_notMem_key _ rfl hinline) with ⟨hkey, hrest⟩
        rw [List.map_cons, List.foldl_cons,
          writeTo_innerField_of_new h.ne_empty h.point_notMem hnew hkey]
        exact foldl_innerField h.ne_empty h.point_notMem hnew htidy.distinct hrest

end

theorem foldl_ofValues {values done : Fields Json} (hdistinct : Fields.Distinct (done ++ values))
    (htidy : ∀ field ∈ values, field.2.Tidy)
    (h : ∀ field ∈ values, Addressable field.1 field.2) :
    (ofValues values).foldl Field.writeTo done =
      done ++ values.filter fun field => !field.2.isEmptyObject := by
  induction values generalizing done with
  | nil => simp [ofValues]
  | cons field rest ih =>
      rcases List.forall_mem_cons.mp h with ⟨hfield, hrest⟩
      rcases List.forall_mem_cons.mp htidy with ⟨hvalue, hvalues⟩
      have hfirst := foldl_fieldsOfVariable hfield hdistinct.notMem_of_append hvalue
      -- What is written so far stays in front of the variables that are left, so the next one is new.
      have hsub : (done ++ ([field].filter fun field => !field.2.isEmptyObject) ++ rest).Sublist
          (done ++ field :: rest) := by
        rw [List.append_assoc]
        exact (List.filter_sublist.append_right rest).append_left done
      have hfields : ofValues (field :: rest) =
          fieldsOfVariable field.1 field.2 ++ ofValues rest := rfl
      rw [hfields, List.foldl_append, hfirst, ih ((hsub.map Prod.fst).nodup hdistinct) hvalues hrest,
        List.append_assoc, ← List.filter_append]
      rfl

/-- A form determines its values: written in turn where there was nothing, its fields give back the
values it was made for, in their order, apart from the empty objects, for which a form has no
field. -/
theorem form_determines_values (values : Fields Json) (htidy : (Json.obj values).Tidy)
    (h : ∀ field ∈ values, Addressable field.1 field.2) :
    collect (ofValues values) = values.filter fun field => !field.2.isEmptyObject := by
  have hdistinct : Fields.Distinct ([] ++ values) := htidy.distinct
  exact foldl_ofValues hdistinct (fun _ hfield => htidy.of_mem hfield) h

/-- The empty object `old` has no field, and the keys of `user` stay keys although one of them is a
digit and one is empty. -/
theorem form_determines_values_user :
    (Json.obj [("rows", .arr [.obj [("id", .null)]]), ("old", .obj []),
      ("user", .obj [("0", .str "Ada"), ("", .bool true)]), ("note", .null)]).Tidy ∧
    (∀ field ∈ [("rows", Json.arr [.obj [("id", .null)]]), ("old", .obj []),
      ("user", .obj [("0", .str "Ada"), ("", .bool true)]), ("note", .null)],
      Addressable field.1 field.2) ∧
    collect (ofValues [("rows", .arr [.obj [("id", .null)]]), ("old", .obj []),
        ("user", .obj [("0", .str "Ada"), ("", .bool true)]), ("note", .null)]) =
      [("rows", .arr [.obj [("id", .null)]]), ("user", .obj [("0", .str "Ada"), ("", .bool true)]),
        ("note", .null)] := by
  have htidy : (Json.obj [("rows", .arr [.obj [("id", .null)]]), ("old", .obj []),
      ("user", .obj [("0", .str "Ada"), ("", .bool true)]), ("note", .null)]).Tidy := by
    have hrow : (Json.obj [("id", .null)]).Tidy :=
      .obj (by decide) (List.forall_mem_singleton.mpr .null)
    have huser : (Json.obj [("0", .str "Ada"), ("", .bool true)]).Tidy :=
      .obj (by decide) (List.forall_mem_cons.mpr ⟨.str _, List.forall_mem_singleton.mpr (.bool _)⟩)
    refine .obj (by decide) ?_
    simp only [List.forall_mem_cons]
    exact ⟨.arr (List.forall_mem_singleton.mpr hrow), .obj (by decide) (by simp), huser, .null,
      by simp⟩
  have hnames : ∀ field ∈ [("rows", Json.arr [.obj [("id", .null)]]), ("old", .obj []),
      ("user", .obj [("0", .str "Ada"), ("", .bool true)]), ("note", .null)],
      Addressable field.1 field.2 := by
    simp only [List.forall_mem_cons]
    refine ⟨⟨by decide, by decide, by simp⟩, ⟨by decide, by decide, ?_⟩, ⟨by decide, by decide, ?_⟩,
      ⟨by decide, by decide, by simp⟩, by simp⟩
    · rintro fields ⟨⟩ -
      decide
    · rintro fields ⟨⟩ -
      decide
  exact ⟨htidy, hnames, form_determines_values _ htidy hnames⟩

end TemplateShape.Form
