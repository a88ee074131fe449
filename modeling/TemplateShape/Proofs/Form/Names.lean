import TemplateShape.Proofs.Form.Refilled

/-! # Names of fields

The name of a field leads to the value that the field shows and to nothing else. In the form of
refilled values no two fields have the same name, whatever keys were entered. -/

namespace TemplateShape.Form

/-! ## What a name leads to -/

section

variable {values : Fields Json} {name : String}

theorem exchanged_setValue {value : Json} (hpoint : '.' ∉ name.toList)
    (h : Fields.find? values name = some value) (leaf : Json) :
    Fields.Exchanged name value leaf values (setValue values name leaf) := by
  rw [setValue_of_notMem hpoint]
  exact Fields.exchanged_alter h .null fun _ => leaf

theorem exchanged_setValue_innerName {fields : Fields Json} {key : String} {inner : Json}
    (hname : name ≠ "") (hpoint : '.' ∉ name.toList) (hkey : '.' ∉ key.toList)
    (hvalue : Fields.find? values name = some (.obj fields))
    (hinner : Fields.find? fields key = some inner) (leaf : Json) :
    ∃ after, Fields.Exchanged key inner leaf fields after ∧
      Fields.Exchanged name (.obj fields) (.obj after) values
        (setValue values (innerName name key) leaf) := by
  refine ⟨_, Fields.exchanged_alter hinner .null fun _ => leaf, ?_⟩
  rw [setValue_innerName hname hpoint, ← placeAt_key_obj hkey]
  exact Fields.exchanged_alter hvalue .null (placeAt leaf (parts key))

end

/-- A field leads to exactly the value that it shows. Whatever is written under its name takes the
place of that value, which is the value of a variable or one value of an object that is laid out
inline, and everything else stays as it was, in its order. -/
theorem field_leads_to_its_value (values : Fields Json) (htidy : (Json.obj values).Tidy)
    (h : ∀ field ∈ values, Addressable field.1 field.2) :
    ∀ field ∈ ofValues values, ∀ leaf : Json,
      Fields.Exchanged field.name field.value leaf values (setValue values field.name leaf) ∨
      ∃ name key fields after, field.name = innerName name key ∧ isInline fields = true ∧
        Fields.Exchanged key field.value leaf fields after ∧
        Fields.Exchanged name (.obj fields) (.obj after) values
          (setValue values field.name leaf) := by
  intro field hfield leaf
  rcases mem_ofValues_iff.mp hfield with ⟨name, value, hmem, hfields⟩
  have haddress := h _ hmem
  have hvalue := htidy.distinct.find?_eq_some_iff.mpr hmem
  rcases fieldsOfVariable_cases name value with
    ⟨whole, heq, hwhole, hwholeValue, -, -⟩ | ⟨fields, rfl, hinline, heq⟩
  · rw [heq] at hfields
    rw [List.mem_singleton.mp hfields, hwhole, hwholeValue]
    exact .inl (exchanged_setValue haddress.point_notMem hvalue leaf)
  · rw [heq] at hfields
    rcases List.mem_map.mp hfields with ⟨⟨key, inner⟩, hentry, rfl⟩
    have hkey := haddress.point_notMem_key fields rfl hinline key (List.mem_map_of_mem hentry)
    have hinner := (htidy.of_mem hmem).distinct.find?_eq_some_iff.mpr hentry
    obtain ⟨after, hafter, hvalues⟩ := exchanged_setValue_innerName haddress.ne_empty
      haddress.point_notMem hkey hvalue hinner leaf
    exact .inr ⟨name, key, fields, after, rfl, hinline, hafter, hvalues⟩

/-- The field `user.0` leads to the key `0` of an object, next to a list that is edited as JSON. -/
theorem field_leads_to_its_value_digit : ∃ values : Fields Json, (Json.obj values).Tidy ∧
    (∀ field ∈ values, Addressable field.1 field.2) ∧
    ∃ field ∈ ofValues values, field.name = "user.0" ∧
      ∃ name key fields after, field.name = innerName name key ∧ isInline fields = true ∧
        Fields.Exchanged key field.value .null fields after ∧
        Fields.Exchanged name (.obj fields) (.obj after) values (setValue values field.name .null) := by
  have huser : (Json.obj [("name", .str "Ada"), ("0", .bool true)]).Tidy :=
    .obj (by decide) (List.forall_mem_cons.mpr ⟨.str _, List.forall_mem_singleton.mpr (.bool _)⟩)
  have htidy : (Json.obj [("rows", .arr [.null]),
      ("user", .obj [("name", .str "Ada"), ("0", .bool true)])]).Tidy :=
    .obj (by decide) (List.forall_mem_cons.mpr
      ⟨.arr (List.forall_mem_singleton.mpr .null), List.forall_mem_singleton.mpr huser⟩)
  have haddress : ∀ field ∈ [("rows", Json.arr [.null]),
      ("user", .obj [("name", .str "Ada"), ("0", .bool true)])], Addressable field.1 field.2 := by
    refine List.forall_mem_cons.mpr ⟨⟨by decide, by decide, by simp⟩,
      List.forall_mem_singleton.mpr ⟨by decide, by decide, ?_⟩⟩
    rintro fields ⟨⟩ -
    decide
  have hnames : "user.0" ∈ (ofValues [("rows", .arr [.null]),
      ("user", .obj [("name", .str "Ada"), ("0", .bool true)])]).map Field.name := by
    decide +kernel
  rcases List.mem_map.mp hnames with ⟨field, hfield, hname⟩
  refine ⟨_, htidy, haddress, field, hfield, hname,
    (field_leads_to_its_value _ htidy haddress field hfield .null).resolve_left ?_⟩
  -- No variable has the name of the field.
  rintro ⟨front, back, hvalues, -⟩
  have hmem : field.name ∈ ["rows", "user"] := by
    have hroots := congrArg Fields.names hvalues
    rw [Fields.names, Fields.names, List.map_append, List.map_cons] at hroots
    exact hroots ▸ List.mem_append_right _ List.mem_cons_self
  rw [hname] at hmem
  exact absurd hmem (by decide)

/-! ## Names that differ -/

section

variable {name : String}

theorem nodup_names_fieldsOfVariable (hname : name ≠ "") {value : Json}
    (hdistinct : ∀ fields, value = .obj fields → Fields.Distinct fields) :
    ((fieldsOfVariable name value).map Field.name).Nodup := by
  rcases fieldsOfVariable_cases name value with
    ⟨field, hfields, -⟩ | ⟨fields, rfl, -, hfields⟩
  · rw [hfields]
    exact List.nodup_singleton _
  · have hnames : (fieldsOfVariable name (.obj fields)).map Field.name =
        (Fields.names fields).map (innerName name) := by
      simp [hfields, Fields.names]
    rw [hnames]
    apply (hdistinct fields rfl).map
    intro key other hkeys
    rw [innerName_of_ne hname, innerName_of_ne hname] at hkeys
    simpa using hkeys

end

/-- The names of fields are distinct if the variables have distinct names without points. In front of
the first point the variables tell them apart, and behind it the keys of one object do, so points in
keys do no harm. -/
theorem nodup_names_ofValues {values : Fields Json} (hdistinct : Fields.Distinct values)
    (hnames : ∀ name ∈ Fields.names values, name ≠ "" ∧ '.' ∉ name.toList)
    (hinner : ∀ field ∈ values, ∀ fields, field.2 = .obj fields → Fields.Distinct fields) :
    ((ofValues values).map Field.name).Nodup := by
  have hroot : ∀ entry ∈ values, ∀ name ∈ (fieldsOfVariable entry.1 entry.2).map Field.name,
      (parts name).headD "" = entry.1 := by
    intro entry hentry name hname
    obtain ⟨hne, hpoint⟩ := hnames entry.1 (List.mem_map_of_mem hentry)
    obtain ⟨field, hfield, rfl⟩ := List.mem_map.mp hname
    exact root_of_mem_fieldsOfVariable hne hpoint hfield
  have hapart : values.Pairwise fun first second => first.1 ≠ second.1 :=
    List.pairwise_map.mp hdistinct
  rw [ofValues, List.map_flatMap, List.nodup_flatMap]
  refine ⟨?_, hapart.imp_of_mem ?_⟩
  · intro entry hentry
    exact nodup_names_fieldsOfVariable (hnames entry.1 (List.mem_map_of_mem hentry)).1
      (hinner entry hentry)
  · intro first second hfirst hsecond hne name hname hother
    exact hne ((hroot first hfirst name hname).symm.trans (hroot second hsecond name hother))

/-- No two fields in the form of refilled values have the same name, even if a key that was entered,
or one of the sample, has points. -/
theorem field_names_are_distinct (settings : Settings) (template : String)
    (existing : Fields Json) (htidy : (Json.obj existing).Tidy) :
    ((ofValues ((Outline.ofTemplate settings template).refill existing)).map Field.name).Nodup := by
  apply nodup_names_ofValues (distinct_refill settings template existing)
  · intro name hname
    obtain ⟨⟨root, value⟩, hmem, rfl⟩ := List.mem_map.mp hname
    obtain ⟨shape, hisName, -⟩ := exists_shape_of_mem hmem
    exact ⟨ne_empty_of_isName hisName, point_notMem_of_isName hisName⟩
  · rintro ⟨name, value⟩ hmem fields hvalue
    obtain ⟨shape, -, hshape, hrefill⟩ := exists_shape_of_mem hmem
    have hexisting : ∀ old, Fields.find? existing name = some old → old.Tidy :=
      fun old hold => htidy.of_mem (Fields.mem_of_find? hold)
    exact Shape.distinct_of_refill (Outline.tidy_find?_ofTemplate hshape) hexisting
      (hrefill.symm.trans hvalue)

/-- The point in a key of `a` does not lead into the variable `b`. -/
theorem field_names_are_distinct_points :
    (Json.obj [("a", .obj [("b.c", .str ""), ("b", .str "")]), ("b", .obj [("c", .str "")])]).Tidy ∧
    (ofValues ((Outline.ofTemplate {} "{{ a }}{{ b }}").refill [("a", .obj [("b.c", .str ""),
      ("b", .str "")]), ("b", .obj [("c", .str "")])])).map Field.name = ["a.b.c", "a.b", "b.c"] ∧
    ((ofValues ((Outline.ofTemplate {} "{{ a }}{{ b }}").refill [("a", .obj [("b.c", .str ""),
      ("b", .str "")]), ("b", .obj [("c", .str "")])])).map Field.name).Nodup := by
  have hfirst : (Json.obj [("b.c", .str ""), ("b", .str "")]).Tidy :=
    .obj (by decide) (List.forall_mem_cons.mpr ⟨.str _, List.forall_mem_singleton.mpr (.str _)⟩)
  have hsecond : (Json.obj [("c", .str "")]).Tidy :=
    .obj (by decide) (List.forall_mem_singleton.mpr (.str _))
  have htidy : (Json.obj [("a", .obj [("b.c", .str ""), ("b", .str "")]),
      ("b", .obj [("c", .str "")])]).Tidy :=
    .obj (by decide) (List.forall_mem_cons.mpr ⟨hfirst, List.forall_mem_singleton.mpr hsecond⟩)
  exact ⟨htidy, by decide +kernel, field_names_are_distinct {} "{{ a }}{{ b }}" _ htidy⟩

end TemplateShape.Form
