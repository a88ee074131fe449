import TemplateShape.Proofs.Form.Fields
import TemplateShape.Proofs.Template.Nesting
import TemplateShape.Proofs.Template.Points

/-! # Forms that are handed in as they are

What a field shows stands for the value of the field, and its name leads to where that value comes
from. So a form that nobody touched leaves the values of a template as they were. -/

namespace TemplateShape

namespace Form

/-! ## What fields show -/

/-- The text that a field shows: text as it is, a flag as a word, anything else as compact JSON. -/
def Field.shown (field : Field) : String :=
  match field.kind, field.value with
  | .text, .str text => text
  | .boolean, .bool true => "true"
  | .boolean, .bool false => "false"
  | _, value => value.render

/-- A field that can be handed in as it is: what it shows stands for its value, and writing that
value under its name changes nothing. -/
def Field.IsStable (values : Fields Json) (field : Field) : Prop :=
  field.kind.read field.shown = .ok field.value ∧ setValue values field.name field.value = values

theorem read_shown_of_bool {field : Field} {value : Bool} (hkind : field.kind = .boolean)
    (hvalue : field.value = .bool value) : field.kind.read field.shown = .ok field.value := by
  rw [Field.shown, hkind, hvalue]
  cases value with
  | true => rfl
  | false => rfl

theorem read_shown_of_str {field : Field} {text : String} (hkind : field.kind = .text)
    (hvalue : field.value = .str text) : field.kind.read field.shown = .ok field.value := by
  rw [Field.shown, hkind, hvalue]
  rfl

theorem read_shown_of_json {field : Field} (hkind : field.kind = .json)
    (hparse : Json.parse field.value.render = .ok field.value) :
    field.kind.read field.shown = .ok field.value := by
  rw [Field.shown, hkind, Kind.read, hparse]
  rfl

end Form

namespace Outline

theorem find?_values (outline : Outline) (name : String) :
    Fields.find? outline.values name = (outline.find? name).map Shape.toJson :=
  Fields.find?_map Shape.toJson outline.entries name

end Outline

/-! ## Fields of an outline -/

namespace Form

open Outline

variable {settings : Settings} {template root : String}

theorem isStable_innerField (hsample : ∀ entry ∈ settings.entrySample, '.' ∉ entry.1.toList)
    {fields : Fields Shape} (h : (ofTemplate settings template).find? root = some (.object fields))
    {key : String} {part : Shape} (hpart : Fields.find? fields key = some part)
    (hsimple : isSimple part.toJson = true) :
    (innerField root key part.toJson).IsStable (ofTemplate settings template).values := by
  have hroot := isName_of_find? h
  have hvalue : Fields.find? (ofTemplate settings template).values root =
      some (.obj (Shape.fieldsToJson fields)) := by
    rw [find?_values, h]
    rfl
  have hinner : Fields.find? (Shape.fieldsToJson fields) key = some part.toJson := by
    rw [Shape.fieldsToJson_eq_map, Fields.find?_map, hpart]
    rfl
  have hwrite := setValue_inner (point_notMem_of_isName hroot)
    (point_notMem_key hsample h hpart) hvalue hinner
  rw [← innerName_of_ne (ne_empty_of_isName hroot)] at hwrite
  cases part with
  | text text => exact ⟨read_shown_of_str rfl rfl, hwrite⟩
  | flag value => exact ⟨read_shown_of_bool rfl rfl, hwrite⟩
  | object inner => simp [Shape.toJson, isSimple] at hsimple
  | array items => simp [Shape.toJson, isSimple] at hsimple

theorem isStable_of_mem_fieldsOfVariable
    (hsample : ∀ entry ∈ settings.entrySample, '.' ∉ entry.1.toList) {shape : Shape}
    (h : (ofTemplate settings template).find? root = some shape) {field : Field}
    (hfield : field ∈ fieldsOfVariable root shape.toJson) :
    field.IsStable (ofTemplate settings template).values := by
  have hvalue : Fields.find? (ofTemplate settings template).values root = some shape.toJson := by
    rw [find?_values, h]
    rfl
  have hwrite := setValue_root (point_notMem_of_isName (isName_of_find? h)) hvalue
  have hparse := parse_render_ofTemplate h
  cases shape with
  | text text =>
      rw [List.mem_singleton.mp hfield]
      exact ⟨read_shown_of_str rfl rfl, hwrite⟩
  | flag value =>
      rw [List.mem_singleton.mp hfield]
      exact ⟨read_shown_of_bool rfl rfl, hwrite⟩
  | array items =>
      rw [List.mem_singleton.mp hfield]
      exact ⟨read_shown_of_json rfl hparse, hwrite⟩
  | object fields =>
      rw [Shape.toJson, fieldsOfVariable] at hfield
      split at hfield
      · rename_i hinline
        have hall := (Bool.and_eq_true_iff.mp hinline).2
        rcases List.mem_map.mp hfield with ⟨⟨key, inner⟩, hmem, heq⟩
        have hsimple : isSimple inner = true := List.all_eq_true.mp hall _ hmem
        rw [Shape.fieldsToJson_eq_map] at hmem
        rcases List.mem_map.mp hmem with ⟨⟨name, part⟩, hpart, hpair⟩
        rcases Prod.mk.inj hpair with ⟨hname, hinner⟩
        subst hname hinner heq
        have hfind := (tidy_find?_ofTemplate h).distinct.find?_eq_some_iff.mpr hpart
        exact isStable_innerField hsample h hfind hsimple
      · rw [List.mem_singleton.mp hfield]
        exact ⟨read_shown_of_json rfl hparse, hwrite⟩

/-- Handing in the form of a template as it is changes nothing: what a field shows stands for the
value of the field, and writing that value under the field's name leaves all values as they were,
in their order. The keys of the sample must have no points, for these lead into values. -/
theorem untouched_changes_nothing (settings : Settings)
    (hsample : ∀ entry ∈ settings.entrySample, '.' ∉ entry.1.toList) (template : String) :
    ∀ field ∈ ofValues (ofTemplate settings template).values,
      field.kind.read field.shown = .ok field.value ∧
        setValue (ofTemplate settings template).values field.name field.value =
          (ofTemplate settings template).values := by
  intro field hfield
  rcases List.mem_flatMap.mp hfield with ⟨⟨root, value⟩, hmem, hfields⟩
  rcases List.mem_map.mp hmem with ⟨⟨name, shape⟩, hentry, hpair⟩
  rcases Prod.mk.inj hpair with ⟨hname, hvalue⟩
  subst hname hvalue
  have hfind : (ofTemplate settings template).find? name = some shape :=
    (distinct_ofTemplate settings template).find?_eq_some_iff.mpr hentry
  exact isStable_of_mem_fieldsOfVariable hsample hfind hfields

/-- The field `a.key1` leads to an entry of the sample. -/
theorem untouched_changes_nothing_entry :
    (∀ entry ∈ ({} : Settings).entrySample, '.' ∉ entry.1.toList) ∧
    ∃ field ∈ ofValues (ofTemplate {} "{% for k, v in a.items() %}").values,
      field.name = "a.key1" ∧ field.kind.read field.shown = .ok field.value ∧
        setValue (ofTemplate {} "{% for k, v in a.items() %}").values "a.key1" field.value =
          (ofTemplate {} "{% for k, v in a.items() %}").values := by
  have hsample : ∀ entry ∈ ({} : Settings).entrySample, '.' ∉ entry.1.toList := by decide
  have hnames : "a.key1" ∈
      (ofValues (ofTemplate {} "{% for k, v in a.items() %}").values).map Field.name := by
    decide +kernel
  rcases List.mem_map.mp hnames with ⟨field, hfield, hname⟩
  have hstable := untouched_changes_nothing {} hsample "{% for k, v in a.items() %}" field hfield
  rw [hname] at hstable
  exact ⟨hsample, field, hfield, hname, hstable⟩

end Form

end TemplateShape
