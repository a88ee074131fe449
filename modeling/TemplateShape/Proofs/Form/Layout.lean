import TemplateShape.Proofs.Form.Names

/-! # Layout of a form

How a form is laid out depends on its values: a small object with plain values only has a field for
each of them, and any other structure is edited as JSON. What is typed into a field that is not
edited as JSON stands for a plain value, so filling such a field does not change the layout. -/

namespace TemplateShape.Form

def Field.place (field : Field) : String × Nat :=
  (field.name, field.depth)

def layout (values : Fields Json) : List (String × Nat) :=
  (ofValues values).map Field.place

/-! ## What is typed in -/

theorem isSimple_of_readNumber {raw : String} {leaf : Json} (h : readNumber raw = .ok leaf) :
    isSimple leaf = true := by
  unfold readNumber at h
  dsimp only at h
  split at h
  · -- A field that was cleared stands for an empty text.
    cases h
    rfl
  · split at h
    · cases h
      rfl
    · cases h
      rfl
    · cases h

theorem isSimple_of_readBoolean {raw : String} {leaf : Json} (h : readBoolean raw = .ok leaf) :
    isSimple leaf = true := by
  unfold readBoolean at h
  dsimp only at h
  split at h
  · cases h
    rfl
  · split at h
    · cases h
      rfl
    · cases h

/-- Only JSON stands for anything but plain values. -/
theorem isSimple_of_read {kind : Kind} (hkind : kind ≠ .json) {raw : String} {leaf : Json}
    (h : kind.read raw = .ok leaf) : isSimple leaf = true := by
  cases kind with
  | text =>
      obtain rfl : .str raw = leaf := Except.ok.inj h
      rfl
  | number =>
      rw [Kind.read] at h
      exact isSimple_of_readNumber h
  | boolean =>
      rw [Kind.read] at h
      exact isSimple_of_readBoolean h
  | json => exact absurd rfl hkind

theorem ofValue_ne_json {value : Json} (h : isSimple value = true) : Kind.ofValue value ≠ .json := by
  cases value with
  | null | bool | num | str => simp [Kind.ofValue]
  | arr | obj => simp [isSimple] at h

/-! ## Places of fields -/

section

variable (name : String)

theorem places_of_plain {value : Json} (h : Kind.ofValue value ≠ .json) :
    (fieldsOfVariable name value).map Field.place = [(name, 0)] := by
  cases value with
  | null | bool | num | str => rfl
  | arr | obj => exact absurd rfl h

theorem places_of_inline {fields : Fields Json} (h : isInline fields = true) :
    (fieldsOfVariable name (.obj fields)).map Field.place =
      (Fields.names fields).map fun key => (innerName name key, 1) := by
  rw [fieldsOfVariable, if_pos h, Fields.names, List.map_map, List.map_map]
  rfl

end

section

variable {values after fields : Fields Json} {name key : String} {old new : Json}

/-- An object stays inline when a plain value takes the place of another one. -/
theorem isInline_of_exchanged (h : Fields.Exchanged key old new fields after)
    (hinline : isInline fields = true) (hnew : isSimple new = true) : isInline after = true := by
  obtain ⟨front, back, rfl, rfl⟩ := h
  simp only [isInline, List.length_append, List.length_cons, List.all_append, List.all_cons,
    Bool.and_eq_true] at hinline ⊢
  exact ⟨hinline.1, hinline.2.1, hnew, hinline.2.2.2⟩

/-- The layout is kept if the variable whose value is exchanged keeps the places of its fields. -/
theorem layout_of_exchanged (h : Fields.Exchanged name old new values after)
    (hplaces : (fieldsOfVariable name new).map Field.place =
      (fieldsOfVariable name old).map Field.place) : layout after = layout values := by
  obtain ⟨front, back, rfl, rfl⟩ := h
  simp only [layout, ofValues, List.flatMap_append, List.flatMap_cons, List.map_append, hplaces]

end

/-- Filling a field does not change the layout of the form. Whatever is typed into a field that is
not edited as JSON, the form for the values behind it has fields with the same names and depths, in
the same order. -/
theorem filling_keeps_layout (values : Fields Json) (htidy : (Json.obj values).Tidy)
    (h : ∀ field ∈ values, Addressable field.1 field.2) :
    ∀ field ∈ ofValues values, field.kind ≠ .json → ∀ raw leaf, field.kind.read raw = .ok leaf →
      layout (setValue values field.name leaf) = layout values := by
  intro field hfield hkind raw leaf hread
  have hleaf := isSimple_of_read hkind hread
  obtain ⟨name, value, hmem, hfields⟩ := mem_ofValues_iff.mp hfield
  have haddress := h _ hmem
  have hvalue := htidy.distinct.find?_eq_some_iff.mpr hmem
  rcases fieldsOfVariable_cases name value with
    ⟨whole, heq, hwhole, -, hwholeKind, -⟩ | ⟨fields, rfl, hinline, heq⟩
  · rw [heq] at hfields
    obtain rfl := List.mem_singleton.mp hfields
    rw [hwhole]
    apply layout_of_exchanged (exchanged_setValue haddress.point_notMem hvalue leaf)
    rw [places_of_plain name (ofValue_ne_json hleaf), places_of_plain name (hwholeKind ▸ hkind)]
  · rw [heq] at hfields
    obtain ⟨⟨key, inner⟩, hentry, rfl⟩ := List.mem_map.mp hfields
    have hkey := haddress.point_notMem_key fields rfl hinline key (List.mem_map_of_mem hentry)
    have hinner := (htidy.of_mem hmem).distinct.find?_eq_some_iff.mpr hentry
    obtain ⟨after, hafter, hvalues⟩ := exchanged_setValue_innerName haddress.ne_empty
      haddress.point_notMem hkey hvalue hinner leaf
    apply layout_of_exchanged hvalues
    rw [places_of_inline name (isInline_of_exchanged hafter hinline hleaf),
      places_of_inline name hinline, hafter.names_eq]

/-- The number field `n` stays when it is cleared, and so does the field of the number in `user`,
which is edited as text. -/
theorem filling_keeps_layout_cleared : ∃ values : Fields Json, (Json.obj values).Tidy ∧
    (∀ field ∈ values, Addressable field.1 field.2) ∧
    layout values = [("n", 0), ("user.name", 1), ("user.age", 1)] ∧
    ∃ field ∈ ofValues values, field.name = "n" ∧ field.kind ≠ .json ∧
      field.kind.read " " = .ok (.str "") ∧
      layout (setValue values field.name (.str "")) = layout values := by
  have huser : (Json.obj [("name", .str "Ada"), ("age", .num (.int 36))]).Tidy :=
    .obj (by decide) (List.forall_mem_cons.mpr ⟨.str _, List.forall_mem_singleton.mpr (.num _)⟩)
  have htidy : (Json.obj [("n", .num (.int 3)),
      ("user", .obj [("name", .str "Ada"), ("age", .num (.int 36))])]).Tidy :=
    .obj (by decide) (List.forall_mem_cons.mpr ⟨.num _, List.forall_mem_singleton.mpr huser⟩)
  have haddress : ∀ field ∈ [("n", Json.num (.int 3)),
      ("user", .obj [("name", .str "Ada"), ("age", .num (.int 36))])],
      Addressable field.1 field.2 := by
    refine List.forall_mem_cons.mpr ⟨⟨by decide, by decide, by simp⟩,
      List.forall_mem_singleton.mpr ⟨by decide, by decide, ?_⟩⟩
    rintro fields ⟨⟩ -
    decide
  have hkinds : ("n", Kind.number) ∈ (ofValues [("n", .num (.int 3)),
      ("user", .obj [("name", .str "Ada"), ("age", .num (.int 36))])]).map
        fun field => (field.name, field.kind) := by
    decide +kernel
  obtain ⟨field, hfield, hpair⟩ := List.mem_map.mp hkinds
  obtain ⟨hname, hkind⟩ := Prod.mk.inj hpair
  have hnot : field.kind ≠ .json := by
    rw [hkind]
    decide
  have hread : field.kind.read " " = .ok (.str "") := by
    rw [hkind]
    cbv
  exact ⟨_, htidy, haddress, by decide +kernel, field, hfield, hname, hnot, hread,
    filling_keeps_layout _ htidy haddress field hfield hnot " " (.str "") hread⟩

end TemplateShape.Form
