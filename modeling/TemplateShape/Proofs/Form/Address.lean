import TemplateShape.Form.Address
import TemplateShape.Form.Field
import TemplateShape.Proofs.Fields

/-! # Laws of dotted names

The parts of a dotted name, and what is written under a name that leads to a variable or into
one. -/

namespace TemplateShape.Form

/-! ## Parts -/

theorem parts_of_notMem {name : String} (h : '.' ∉ name.toList) : parts name = [name] := by
  rw [parts, List.splitOn_eq_singleton h]
  simp

/-- The first part goes up to the first point. -/
theorem parts_append_point {root : String} (h : '.' ∉ root.toList) (name : String) :
    parts (root ++ "." ++ name) = root :: parts name := by
  have hsplit : (root ++ "." ++ name).toList = root.toList ++ '.' :: name.toList := by simp
  rw [parts, hsplit, List.splitOn_append_cons_self_of_not_mem h]
  simp [parts]

theorem exists_parts_of_mem {name : String} (h : '.' ∈ name.toList) :
    ∃ part next rest, parts name = part :: next :: rest := by
  rcases List.eq_append_cons_of_mem h with ⟨before, behind, hname, hbefore⟩
  rcases List.exists_cons_of_ne_nil (List.splitOn_ne_nil '.' behind) with ⟨next, rest, hbehind⟩
  refine ⟨String.ofList before, String.ofList next, rest.map String.ofList, ?_⟩
  rw [parts, hname, List.splitOn_append_cons_self_of_not_mem hbefore, hbehind]
  rfl

/-! ## Writes -/

theorem setValue_of_notMem {name : String} (h : '.' ∉ name.toList) (values : Fields Json)
    (leaf : Json) :
    setValue values name leaf = Fields.alter name .null (fun _ => leaf) values := by
  rw [setValue, parts_of_notMem h]
  rfl

/-- Behind the first point a name leads into the value of a variable. -/
theorem setValue_append_point {root : String} (h : '.' ∉ root.toList) (name : String)
    (values : Fields Json) (leaf : Json) :
    setValue values (root ++ "." ++ name) leaf =
      Fields.alter root .null (placeAt leaf (parts name)) values := by
  rw [setValue, parts_append_point h]

theorem placeAt_key_obj {key : String} (h : '.' ∉ key.toList) (leaf : Json)
    (fields : Fields Json) :
    placeAt leaf (parts key) (.obj fields) =
      .obj (Fields.alter key .null (fun _ => leaf) fields) := by
  rw [parts_of_notMem h]
  rfl

theorem placeAt_key_null {key : String} (h : '.' ∉ key.toList) (leaf : Json) :
    placeAt leaf (parts key) .null = .obj [(key, leaf)] := by
  rw [parts_of_notMem h]
  rfl

theorem isSimple_placeAt_cons (leaf : Json) (part : String) (rest : List String) (value : Json) :
    isSimple (placeAt leaf (part :: rest) value) = false := by
  unfold placeAt
  split
  · rfl
  · rfl
  · rfl

theorem setValue_root {values : Fields Json} {name : String} {value : Json}
    (hname : '.' ∉ name.toList) (h : Fields.find? values name = some value) :
    setValue values name value = values := by
  rw [setValue_of_notMem hname]
  exact Fields.alter_eq_self h rfl .null

theorem setValue_inner {values fields : Fields Json} {name key : String} {value : Json}
    (hname : '.' ∉ name.toList) (hkey : '.' ∉ key.toList)
    (h : Fields.find? values name = some (.obj fields))
    (hinner : Fields.find? fields key = some value) :
    setValue values (name ++ "." ++ key) value = values := by
  have hplace : placeAt value (parts key) (.obj fields) = .obj fields := by
    rw [placeAt_key_obj hkey, Fields.alter_eq_self hinner rfl]
  rw [setValue_append_point hname]
  exact Fields.alter_eq_self h hplace .null

end TemplateShape.Form
