import TemplateShape.Proofs.Form.Fields
import TemplateShape.Proofs.Outline.Refill
import TemplateShape.Proofs.Template.Points
import TemplateShape.Proofs.Template.Tidy

/-! # Forms of refilled values

The values of a form come from a template and from what was entered before. A field is written back
to where its value comes from as long as no key has a point, and what is typed into it stays when the
values are refilled. -/

namespace TemplateShape

namespace Shape

/-- Only below a plain shape stands a plain value. -/
theorem Fits.isPlain_of_isSimple {shape : Shape} {value : Json} (h : shape.Fits value)
    (hvalue : Form.isSimple value = true) : shape.isPlain = true := by
  cases h with
  | text sample value => rfl
  | flag sample value => rfl
  | array samples items => simp [Form.isSimple] at hvalue
  | object hfields => simp [Form.isSimple] at hvalue

end Shape

namespace Form

open Outline

section

variable {settings : Settings} {template : String} {existing : Fields Json}

theorem exists_shape_of_mem {name : String} {value : Json}
    (h : (name, value) ∈ (ofTemplate settings template).refill existing) :
    ∃ shape, Tag.IsName name ∧ (ofTemplate settings template).find? name = some shape ∧
      value = shape.refill (Fields.find? existing name) := by
  rcases List.mem_map.mp h with ⟨⟨root, shape⟩, hentry, hpair⟩
  rcases Prod.mk.inj hpair with ⟨rfl, rfl⟩
  have hshape : (ofTemplate settings template).find? root = some shape :=
    (distinct_ofTemplate settings template).find?_eq_some_iff.mpr hentry
  exact ⟨shape, isName_of_find? hshape, hshape, rfl⟩

theorem distinct_refill (settings : Settings) (template : String) (existing : Fields Json) :
    Fields.Distinct ((ofTemplate settings template).refill existing) :=
  (fieldsFit_refill _ existing).distinct (distinct_ofTemplate settings template)

theorem exists_variable_of_mem {field : Field}
    (h : field ∈ ofValues ((ofTemplate settings template).refill existing)) :
    ∃ name shape, Tag.IsName name ∧ (ofTemplate settings template).find? name = some shape ∧
      Fields.find? ((ofTemplate settings template).refill existing) name =
        some (shape.refill (Fields.find? existing name)) ∧
      field ∈ fieldsOfVariable name (shape.refill (Fields.find? existing name)) := by
  rcases mem_ofValues_iff.mp h with ⟨name, value, hvalue, hfield⟩
  rcases exists_shape_of_mem hvalue with ⟨shape, hname, hshape, rfl⟩
  exact ⟨name, shape, hname, hshape,
    (distinct_refill settings template existing).find?_eq_some_iff.mpr hvalue, hfield⟩

end

/-! ## Writing back -/

section

variable {values : Fields Json} {name : String}

/-- Behind a key with a point stands no plain value, so a write there changes an object that is laid
out inline. -/
theorem placeAt_ne_self {fields : Fields Json} (h : isInline fields = true) {key : String}
    (hkey : '.' ∈ key.toList) (leaf : Json) :
    placeAt leaf (parts key) (.obj fields) ≠ .obj fields := by
  intro hself
  rcases exists_parts_of_mem hkey with ⟨part, next, rest, hparts⟩
  rw [hparts] at hself
  have halter : Fields.alter part .null (placeAt leaf (next :: rest)) fields = fields :=
    Json.obj.inj hself
  have hsimple := isSimple_of_find? h (Fields.find?_of_alter_eq_self halter)
  rw [isSimple_placeAt_cons] at hsimple
  exact Bool.false_ne_true hsimple

theorem setValue_innerName_iff (hne : name ≠ "") (hpoint : '.' ∉ name.toList) {fields : Fields Json}
    (hvalue : Fields.find? values name = some (.obj fields)) (hinline : isInline fields = true)
    {key : String} {inner : Json} (hinner : Fields.find? fields key = some inner) :
    setValue values (innerName name key) inner = values ↔ '.' ∉ key.toList := by
  constructor
  · intro hself hkey
    rw [setValue_innerName hne hpoint] at hself
    have hplace := Fields.find?_of_alter_eq_self hself
    rw [hvalue] at hplace
    exact placeAt_ne_self hinline hkey inner (Option.some.inj hplace).symm
  · intro hkey
    rw [innerName_of_ne hne]
    exact setValue_inner hpoint hkey hvalue hinner

theorem count_innerName (hne : name ≠ "") (hpoint : '.' ∉ name.toList) (key : String) :
    (innerName name key).toList.count '.' = key.toList.count '.' + 1 := by
  rw [innerName_of_ne hne]
  simp [List.count_eq_zero_of_not_mem hpoint]

/-- Writing the value of a field back changes nothing exactly if the name of the field has no other
point than the one behind its variable. -/
theorem setValue_field_iff (hne : name ≠ "") (hpoint : '.' ∉ name.toList) {value : Json}
    (hvalue : Fields.find? values name = some value)
    (hdistinct : ∀ fields, value = .obj fields → Fields.Distinct fields) {field : Field}
    (hfield : field ∈ fieldsOfVariable name value) :
    setValue values field.name field.value = values ↔ field.name.toList.count '.' ≤ 1 := by
  rcases fieldsOfVariable_cases name value with
    ⟨whole, hfields, hwhole, hwholeValue, -, -⟩ | ⟨fields, rfl, hinline, hfields⟩
  · rw [hfields] at hfield
    rw [List.mem_singleton.mp hfield, hwhole, hwholeValue, setValue_root hpoint hvalue,
      List.count_eq_zero_of_not_mem hpoint]
    simp
  · rw [hfields] at hfield
    rcases List.mem_map.mp hfield with ⟨⟨key, inner⟩, hentry, rfl⟩
    have hinner := (hdistinct fields rfl).find?_eq_some_iff.mpr hentry
    calc
      setValue values (innerName name key) inner = values
        ↔ '.' ∉ key.toList := setValue_innerName_iff hne hpoint hvalue hinline hinner
      _ ↔ key.toList.count '.' = 0 := List.count_eq_zero.symm
      _ ↔ (innerName name key).toList.count '.' ≤ 1 := by
          rw [count_innerName hne hpoint]
          omega

end

/-- Writing the value of a field of refilled values back under the name of the field changes nothing
exactly if the name has no other point than the one behind its variable. A key with a point, which
an entered value or the sample may have, makes a name that leads elsewhere. -/
theorem written_back_iff (settings : Settings) (template : String) (existing : Fields Json)
    (htidy : (Json.obj existing).Tidy) :
    ∀ field ∈ ofValues ((ofTemplate settings template).refill existing),
      setValue ((ofTemplate settings template).refill existing) field.name field.value =
          (ofTemplate settings template).refill existing ↔
        field.name.toList.count '.' ≤ 1 := by
  intro field hfield
  rcases exists_variable_of_mem hfield with ⟨name, shape, hname, hshape, hvalue, hfields⟩
  have hexisting : ∀ old, Fields.find? existing name = some old → old.Tidy :=
    fun old hold => htidy.of_mem (Fields.mem_of_find? hold)
  exact setValue_field_iff (ne_empty_of_isName hname) (point_notMem_of_isName hname) hvalue
    (fun _ heq => Shape.distinct_of_refill (tidy_find?_ofTemplate hshape) hexisting heq) hfields

/-- The field `x.c` is written back, next to a field whose key has a point. -/
theorem written_back_iff_key :
    (Json.obj [("x", .obj [("a.b", .str "v"), ("c", .str "w")])]).Tidy ∧
    ∃ field ∈ ofValues ((ofTemplate {} "{{ x }}").refill
        [("x", .obj [("a.b", .str "v"), ("c", .str "w")])]),
      field.name = "x.c" ∧
        setValue ((ofTemplate {} "{{ x }}").refill
            [("x", .obj [("a.b", .str "v"), ("c", .str "w")])]) field.name field.value =
          (ofTemplate {} "{{ x }}").refill [("x", .obj [("a.b", .str "v"), ("c", .str "w")])] := by
  have hx : (Json.obj [("a.b", .str "v"), ("c", .str "w")]).Tidy :=
    .obj (by decide) (List.forall_mem_cons.mpr ⟨.str _, List.forall_mem_singleton.mpr (.str _)⟩)
  have htidy : (Json.obj [("x", .obj [("a.b", .str "v"), ("c", .str "w")])]).Tidy :=
    .obj (by decide) (List.forall_mem_singleton.mpr hx)
  have hnames : "x.c" ∈ (ofValues ((ofTemplate {} "{{ x }}").refill
      [("x", .obj [("a.b", .str "v"), ("c", .str "w")])])).map Field.name := by
    decide +kernel
  rcases List.mem_map.mp hnames with ⟨field, hfield, hname⟩
  have hiff := written_back_iff {} "{{ x }}" _ htidy field hfield
  exact ⟨htidy, field, hfield, hname, hiff.mpr (by rw [hname]; decide)⟩

/-- Not every field is written back: `x.a.b` leads to a new object under the key `a`. -/
theorem not_always_written_back :
    ¬ ∀ (settings : Settings) (template : String) (existing : Fields Json),
      (Json.obj existing).Tidy →
      ∀ field ∈ ofValues ((ofTemplate settings template).refill existing),
        setValue ((ofTemplate settings template).refill existing) field.name field.value =
          (ofTemplate settings template).refill existing := by
  intro hall
  have htidy : (Json.obj [("x", .obj [("a.b", .str "v")])]).Tidy :=
    .obj (by decide) (List.forall_mem_singleton.mpr
      (.obj (by decide) (List.forall_mem_singleton.mpr (.str "v"))))
  have hshown : ∀ field ∈ ofValues ((ofTemplate {} "{{ x }}").refill
      [("x", .obj [("a.b", .str "v")])]),
      (Json.obj (setValue ((ofTemplate {} "{{ x }}").refill [("x", .obj [("a.b", .str "v")])])
        field.name field.value)).render =
      (Json.obj ((ofTemplate {} "{{ x }}").refill [("x", .obj [("a.b", .str "v")])])).render := by
    intro field hfield
    rw [hall {} "{{ x }}" _ htidy field hfield]
  exact absurd hshown (by decide +kernel)

/-! ## Typing in -/

/-- The variable whose value the name of a field leads to or into. -/
def Field.root (field : Field) : String :=
  (parts field.name).headD ""

theorem root_of_mem_fieldsOfVariable {name : String} (hne : name ≠ "") (hpoint : '.' ∉ name.toList)
    {value : Json} {field : Field} (h : field ∈ fieldsOfVariable name value) : field.root = name := by
  rcases fieldsOfVariable_cases name value with
    ⟨whole, hfields, hwhole, -⟩ | ⟨fields, rfl, -, hfields⟩
  · rw [hfields] at h
    rw [List.mem_singleton.mp h, Field.root, hwhole, parts_of_notMem hpoint]
    rfl
  · rw [hfields] at h
    rcases List.mem_map.mp h with ⟨⟨key, inner⟩, -, rfl⟩
    rw [Field.root, name_innerField, innerName_of_ne hne, parts_append_point hpoint]
    rfl

/-- A value may be typed into a field for good: into any field that is not edited as JSON, and as
JSON where the outline has a plain shape for the variable, or an array, and then the value has to be
one. -/
def Field.Admits (field : Field) (outline : Outline) (leaf : Json) : Prop :=
  field.kind ≠ .json ∨ ∃ shape, outline.find? field.root = some shape ∧
    (shape.isPlain = true ∨ ∃ samples items, shape = .array samples ∧ leaf = .arr items)

section

variable {shape : Shape}

theorem fits_of_admits {outline : Outline} {field : Field} {value leaf : Json}
    (hvalue : shape.Fits value) (hkind : field.kind = Kind.ofValue value)
    (hshape : outline.find? field.root = some shape) (h : field.Admits outline leaf) :
    shape.Fits leaf := by
  rcases h with hnot | ⟨other, hother, hadmits⟩
  · -- The field is not edited as JSON, so neither an array nor an object stands there.
    rw [hkind] at hnot
    cases hvalue with
    | text sample value => exact .text sample leaf
    | flag sample value => exact .flag sample leaf
    | array samples items => exact absurd rfl hnot
    | object hfields => exact absurd rfl hnot
  · have heq : shape = other := Option.some.inj (hshape.symm.trans hother)
    subst heq
    rcases hadmits with hplain | ⟨samples, items, rfl, rfl⟩
    · exact Shape.fits_of_isPlain hplain leaf
    · exact .array samples items

/-- A value of an object that is laid out inline makes way for any value, unless the key leads past
it. -/
theorem fits_placeAt {fields : Fields Json} (hvalue : shape.Fits (.obj fields))
    (hinline : isInline fields = true) {key : String} (hmem : key ∈ Fields.names fields)
    (hkey : ∀ shapes part, shape = .object shapes → Fields.find? shapes key = some part →
      '.' ∉ key.toList) (leaf : Json) : shape.Fits (placeAt leaf (parts key) (.obj fields)) := by
  cases hvalue with
  | text sample value => exact .text sample _
  | flag sample value => exact .flag sample _
  | @object shapes _ hfields =>
      rcases Option.isSome_iff_exists.mp ((Fields.find?_isSome_iff fields key).mpr hmem) with
        ⟨inner, hinner⟩
      have hsimple := isSimple_of_find? hinline hinner
      rcases hfields.exists_shape hinner with ⟨part, hpart, -⟩
      rw [placeAt_key_obj (hkey shapes part rfl hpart)]
      apply Shape.Fits.object
      apply hfields.alter hinner
      intro other _ hfits
      exact Shape.fits_of_isPlain (hfits.isPlain_of_isSimple hsimple) leaf

end

/-- The values still fit the outline after any value has been written into a field that admits it. -/
theorem fieldsFit_setValue {settings : Settings}
    (hsample : ∀ entry ∈ settings.entrySample, '.' ∉ entry.1.toList) {template : String}
    {existing : Fields Json} {field : Field}
    (hfield : field ∈ ofValues ((ofTemplate settings template).refill existing)) {leaf : Json}
    (h : field.Admits (ofTemplate settings template) leaf) :
    Shape.FieldsFit (ofTemplate settings template).entries
      (setValue ((ofTemplate settings template).refill existing) field.name leaf) := by
  have hfits := fieldsFit_refill (ofTemplate settings template) existing
  rcases exists_variable_of_mem hfield with ⟨name, shape, hname, hshape, hvalue, hfields⟩
  have hold := Shape.fits_refill shape (Fields.find? existing name)
  have hne := ne_empty_of_isName hname
  have hpoint := point_notMem_of_isName hname
  -- A write below the variable is kept if what it makes of the old value fits the shape.
  have hwrite : ∀ f : Json → Json, shape.Fits (f (shape.refill (Fields.find? existing name))) →
      Shape.FieldsFit (ofTemplate settings template).entries
        (Fields.alter name .null f ((ofTemplate settings template).refill existing)) := by
    intro f hf
    apply hfits.alter hvalue
    intro other hother _
    have hsame : other = shape := Option.some.inj (hother.symm.trans hshape)
    exact hsame ▸ hf
  have hroot := root_of_mem_fieldsOfVariable hne hpoint hfields
  rcases fieldsOfVariable_cases name (shape.refill (Fields.find? existing name)) with
    ⟨whole, heq, hwhole, -, hkind, -⟩ | ⟨fields, hfieldsValue, hinline, heq⟩
  · rw [heq] at hfields
    have hsame := List.mem_singleton.mp hfields
    subst hsame
    rw [hwhole, setValue_of_notMem hpoint]
    exact hwrite _ (fits_of_admits hold hkind (hroot ▸ hshape) h)
  · rw [heq] at hfields
    rcases List.mem_map.mp hfields with ⟨⟨key, inner⟩, hentry, rfl⟩
    rw [name_innerField, setValue_innerName hne hpoint]
    apply hwrite
    rw [hfieldsValue] at hold ⊢
    apply fits_placeAt hold hinline (List.mem_map_of_mem hentry)
    intro shapes part hobject hpart
    exact point_notMem_key hsample (hobject ▸ hshape) hpart

/-- What is typed into the form of refilled values outlasts the next inference: the refill leaves the
values as they were written, in their order. -/
theorem typed_value_survives (settings : Settings)
    (hsample : ∀ entry ∈ settings.entrySample, '.' ∉ entry.1.toList) (template : String)
    (existing : Fields Json) :
    ∀ field ∈ ofValues ((ofTemplate settings template).refill existing), ∀ leaf : Json,
      field.Admits (ofTemplate settings template) leaf →
      (ofTemplate settings template).refill
          (setValue ((ofTemplate settings template).refill existing) field.name leaf) =
        setValue ((ofTemplate settings template).refill existing) field.name leaf := by
  intro field hfield leaf hleaf
  exact refill_eq_self (tidy_ofTemplate settings template)
    (fieldsFit_setValue hsample hfield hleaf)

/-- Even a list typed into `user.name` stays, and the stale key of `user` does not come back. -/
theorem typed_value_survives_list :
    (∀ entry ∈ ({} : Settings).entrySample, '.' ∉ entry.1.toList) ∧
    ∃ field ∈ ofValues ((ofTemplate {} "{{ user.name }}{% for t in tags %}").refill
        [("user", .obj [("age", .null), ("name", .str "Ada")])]),
      field.name = "user.name" ∧
        field.Admits (ofTemplate {} "{{ user.name }}{% for t in tags %}") (.arr [.null]) ∧
        (ofTemplate {} "{{ user.name }}{% for t in tags %}").refill
            (setValue ((ofTemplate {} "{{ user.name }}{% for t in tags %}").refill
              [("user", .obj [("age", .null), ("name", .str "Ada")])]) field.name (.arr [.null])) =
          setValue ((ofTemplate {} "{{ user.name }}{% for t in tags %}").refill
            [("user", .obj [("age", .null), ("name", .str "Ada")])]) field.name (.arr [.null]) := by
  have hsample : ∀ entry ∈ ({} : Settings).entrySample, '.' ∉ entry.1.toList := by decide
  have hkinds : ("user.name", Kind.text) ∈ (ofValues
      ((ofTemplate {} "{{ user.name }}{% for t in tags %}").refill
        [("user", .obj [("age", .null), ("name", .str "Ada")])])).map
          fun field => (field.name, field.kind) := by
    decide +kernel
  rcases List.mem_map.mp hkinds with ⟨field, hfield, hpair⟩
  rcases Prod.mk.inj hpair with ⟨hname, hkind⟩
  have hadmits : field.Admits (ofTemplate {} "{{ user.name }}{% for t in tags %}")
      (.arr [.null]) := .inl (by rw [hkind]; decide)
  exact ⟨hsample, field, hfield, hname, hadmits,
    typed_value_survives {} hsample _ _ field hfield (.arr [.null]) hadmits⟩

end Form

end TemplateShape
