import Mathlib.Data.List.Forall2
import Mathlib.Data.List.Perm.Basic
import TemplateShape.Proofs.Shape.Kind
import TemplateShape.Proofs.Shape.Tidy

/-! # Shapes that differ in the order of keys

Two shapes are alike if the same paths lead to parts of the same kind. Writes of one plain value
along different paths then come out alike in either order. If keys are distinct, alike shapes have
the same JSON value up to the order of keys. -/

namespace TemplateShape

/-! ## JSON values -/

/-- JSON values that are equal up to the order of keys, at every level. -/
inductive Json.Alike : Json → Json → Prop
  | refl (value : Json) : Alike value value
  | arr {items others : List Json} (h : List.Forall₂ Alike items others) :
      Alike (.arr items) (.arr others)
  /-- The same keys with alike values, and then in another order. -/
  | obj {fields others reordered : Fields Json} (hnames : Fields.names fields = Fields.names others)
      (hvalues : List.Forall₂ Alike (fields.map Prod.snd) (others.map Prod.snd))
      (hperm : others.Perm reordered) : Alike (.obj fields) (.obj reordered)

namespace Shape

/-! ## Shapes -/

def kindAt (place : Option Shape) (path : List Step) : Option Kind :=
  (place.bind (·.get? path)).map kind

/-- The same paths lead to parts of the same kind. -/
def Alike (place other : Option Shape) : Prop :=
  ∀ path, kindAt place path = kindAt other path

@[simp] theorem kindAt_nil (place : Option Shape) : kindAt place [] = place.map kind := by
  cases place <;> rfl

namespace Alike

theorem refl (place : Option Shape) : Alike place place :=
  fun _ => rfl

theorem trans {first second third : Option Shape} (h : Alike first second)
    (h' : Alike second third) : Alike first third :=
  fun path => (h path).trans (h' path)

theorem map_kind {place other : Option Shape} (h : Alike place other) :
    place.map Shape.kind = other.map Shape.kind := by
  simpa using h []

theorem kind {shape other : Shape} (h : Alike (some shape) (some other)) :
    shape.kind = other.kind :=
  Option.some.inj h.map_kind

theorem child? {shape other : Shape} (h : Alike (some shape) (some other)) (step : Step) :
    Alike (Shape.child? step shape) (Shape.child? step other) :=
  fun path => h (step :: path)

theorem of_child? {shape other : Shape} (hkind : shape.kind = other.kind)
    (h : ∀ step, Alike (Shape.child? step shape) (Shape.child? step other)) :
    Alike (some shape) (some other) := by
  intro path
  cases path with
  | nil => exact congrArg some hkind
  | cons step rest => exact h step rest

theorem object {fields others : Fields Shape}
    (h : ∀ key, Alike (Fields.find? fields key) (Fields.find? others key)) :
    Alike (some (.object fields)) (some (.object others)) := by
  have hkind : (Shape.object fields).kind = (Shape.object others).kind := rfl
  apply of_child? hkind
  intro step
  cases step with
  | key key => exact h key
  | index i => exact refl none

theorem cases {place other : Option Shape} (h : Alike place other) :
    (place = none ∧ other = none) ∨ ∃ shape shape', place = some shape ∧ other = some shape' ∧
      Alike (some shape) (some shape') := by
  have hkind := h.map_kind
  cases place with
  | none =>
      cases other with
      | none => exact .inl ⟨rfl, rfl⟩
      | some shape' => simp at hkind
  | some shape =>
      cases other with
      | none => simp at hkind
      | some shape' => exact .inr ⟨shape, shape', rfl, rfl, h⟩

theorem getD {place other : Option Shape} (h : Alike place other) (fresh : Shape) :
    Alike (some (place.getD fresh)) (some (other.getD fresh)) := by
  rcases h.cases with ⟨rfl, rfl⟩ | ⟨shape, shape', rfl, rfl, hsome⟩
  · exact refl (some fresh)
  · exact hsome

theorem isPlain {shape other : Shape} (h : Alike (some shape) (some other)) :
    shape.isPlain = other.isPlain := by
  have hcontainer := congrArg Kind.isContainer h.kind
  simpa using hcontainer

end Alike

/-! ## Writes along keys -/

theorem put_key_of_array {shape : Shape} (h : shape.kind = .array) (name : String)
    (rest : List Step) (leaf : Shape) : shape.put (.key name :: rest) leaf = shape := by
  cases shape with
  | array items => rfl
  | object fields => simp [kind] at h
  | text value => simp [kind] at h
  | flag value => simp [kind] at h

theorem put_key_of_not_array {shape : Shape} (h : shape.kind ≠ .array) (name : String)
    (rest : List Step) (leaf : Shape) :
    shape.put (.key name :: rest) leaf = .object (Fields.alter name (freshPlace rest)
      (fun part => part.put rest leaf) (shape.fields?.getD [])) := by
  cases shape with
  | array items => simp [kind] at h
  | object fields => rfl
  | text value => rfl
  | flag value => rfl

theorem kind_put_of_not_array {shape : Shape} (h : shape.kind ≠ .array) (name : String)
    (rest : List Step) (leaf : Shape) : (shape.put (.key name :: rest) leaf).kind = .object := by
  rw [put_key_of_not_array h]
  rfl

theorem child?_put_key {shape : Shape} (h : shape.kind ≠ .array) (name key : String)
    (rest : List Step) (leaf : Shape) :
    child? (.key key) (shape.put (.key name :: rest) leaf) =
      if key = name then some (((child? (.key name) shape).getD printed).put rest leaf)
      else child? (.key key) shape := by
  rw [put_key_of_not_array h, child?_key_object, Fields.find?_alter, ← child?_key_eq,
    ← child?_key_eq]
  cases child? (.key name) shape with
  | none => rw [Option.getD_none, Option.getD_none, put_freshPlace]
  | some part => rfl

theorem child?_index_of_kind {shape : Shape} (h : shape.kind = .object) (i : Nat) :
    child? (.index i) shape = none := by
  cases shape with
  | object fields => rfl
  | array items => simp [kind] at h
  | text value => rfl
  | flag value => rfl

/-- Shapes that both come from a write along a key are alike if their fields are. -/
theorem alike_of_object {shape other : Shape} (h : shape.kind = .object)
    (h' : other.kind = .object)
    (hkeys : ∀ key, Alike (child? (.key key) shape) (child? (.key key) other)) :
    Alike (some shape) (some other) := by
  apply Alike.of_child? (h.trans h'.symm)
  intro step
  cases step with
  | key key => exact hkeys key
  | index i =>
      rw [child?_index_of_kind h, child?_index_of_kind h']
      exact .refl none

theorem Alike.put {shape other : Shape} (h : Alike (some shape) (some other))
    (names : List String) (leaf : Shape) :
    Alike (some (shape.put (names.map .key) leaf)) (some (other.put (names.map .key) leaf)) := by
  induction names generalizing shape other with
  | nil =>
      rw [List.map_nil, put_nil, put_nil, replaced, replaced, Shape.isContainer, Shape.isContainer,
        h.isPlain]
      split
      · exact h
      · exact .refl _
  | cons name rest ih =>
      rw [List.map_cons]
      by_cases harray : shape.kind = .array
      · rw [put_key_of_array harray, put_key_of_array (h.kind ▸ harray)]
        exact h
      · have harray' : other.kind ≠ .array := h.kind ▸ harray
        apply alike_of_object (kind_put_of_not_array harray _ _ _)
          (kind_put_of_not_array harray' _ _ _)
        intro key
        rw [child?_put_key harray, child?_put_key harray']
        split
        · exact ih ((h.child? (.key name)).getD printed)
        · exact h.child? (.key key)

theorem isPlain_put_key (shape : Shape) (name : String) (rest : List Step) (leaf : Shape) :
    (shape.put (.key name :: rest) leaf).isPlain = false := by
  cases shape <;> rfl

/-- A plain value that is written at a place itself makes no difference to a write below it. -/
theorem put_nil_put {leaf : Shape} (hleaf : leaf.isPlain = true) (shape : Shape)
    (names : List String) :
    (shape.put [] leaf).put (names.map .key) leaf =
      (shape.put (names.map .key) leaf).put [] leaf := by
  cases names with
  | nil => rfl
  | cons name rest =>
      rw [List.map_cons, put_nil_of_not_isPlain (isPlain_put_key _ _ _ _) hleaf]
      cases hshape : shape.isPlain with
      | true =>
          rw [put_nil_of_isPlain hshape, put_of_isPlain hleaf, put_of_isPlain hshape]
      | false => rw [put_nil_of_not_isPlain hshape hleaf]

/-- Writes of one plain value may be swapped. -/
theorem alike_put_put {leaf : Shape} (hleaf : leaf.isPlain = true) (shape : Shape)
    (names others : List String) :
    Alike (some ((shape.put (names.map .key) leaf).put (others.map .key) leaf))
      (some ((shape.put (others.map .key) leaf).put (names.map .key) leaf)) := by
  induction names generalizing shape others with
  | nil =>
      rw [List.map_nil, put_nil_put hleaf]
      exact .refl _
  | cons name rest ih =>
      cases others with
      | nil =>
          rw [List.map_nil, put_nil_put hleaf]
          exact .refl _
      | cons other more =>
          rw [List.map_cons, List.map_cons]
          by_cases harray : shape.kind = .array
          · rw [put_key_of_array harray, put_key_of_array harray, put_key_of_array harray]
            exact .refl _
          · have hname : (shape.put (.key name :: rest.map .key) leaf).kind ≠ .array := by
              simp [kind_put_of_not_array harray]
            have hother : (shape.put (.key other :: more.map .key) leaf).kind ≠ .array := by
              simp [kind_put_of_not_array harray]
            apply alike_of_object (kind_put_of_not_array hname _ _ _)
              (kind_put_of_not_array hother _ _ _)
            intro key
            rw [child?_put_key hname, child?_put_key hother, child?_put_key harray,
              child?_put_key harray, child?_put_key harray, child?_put_key harray]
            by_cases hsame : name = other
            · subst hsame
              by_cases hkey : key = name
              · simpa [hkey] using ih _ more
              · simp [hkey, Alike.refl]
            · have hsame' : ¬ other = name := fun e => hsame e.symm
              by_cases hkey : key = name
              · simp [hkey, hsame, Alike.refl]
              · by_cases hkey' : key = other
                · simp [hkey', hsame', Alike.refl]
                · simp [hkey, hkey', Alike.refl]

/-! ## From shapes to JSON values -/

/-- What holds of a shape if it holds of its parts holds of every shape. -/
theorem induction_on_parts {motive : Shape → Prop}
    (object : ∀ fields : Fields Shape, (∀ field ∈ fields, motive field.2) → motive (.object fields))
    (array : ∀ items, (∀ item ∈ items, motive item) → motive (.array items))
    (text : ∀ value, motive (.text value)) (flag : ∀ value, motive (.flag value))
    (shape : Shape) : motive shape := by
  refine @Shape.rec motive (fun fields => ∀ field ∈ fields, motive field.2)
    (fun items => ∀ item ∈ items, motive item) (fun field => motive field.2) object array text flag
    (by simp) ?_ (by simp) ?_ (fun _ _ h => h) shape
  · intro field fields hfield hfields other hother
    rcases List.mem_cons.mp hother with rfl | hother
    · exact hfield
    · exact hfields other hother
  · intro item items hitem hitems other hother
    rcases List.mem_cons.mp hother with rfl | hother
    · exact hitem
    · exact hitems other hother

theorem alike_toJson_object {fields others : Fields Shape}
    (ih : ∀ field ∈ fields, ∀ other : Shape, field.2.Tidy → other.Tidy →
      Alike (some field.2) (some other) → Json.Alike field.2.toJson other.toJson)
    (h : (object fields).Tidy) (h' : (object others).Tidy)
    (halike : Alike (some (.object fields)) (some (.object others))) :
    Json.Alike (object fields).toJson (object others).toJson := by
  have hplaces : ∀ key, Alike (Fields.find? fields key) (Fields.find? others key) :=
    fun key => halike.child? (.key key)
  have hnames : ∀ key, (Fields.find? others key).isSome ↔ (Fields.find? fields key).isSome := by
    intro key
    rcases (hplaces key).cases with ⟨hfields, hothers⟩ | ⟨part, other, hfields, hothers, -⟩ <;>
      simp [hfields, hothers]
  have hperm := Fields.orderedLike_perm h'.distinct h.distinct hnames
  rw [toJson, toJson, fieldsToJson_eq_map, fieldsToJson_eq_map]
  refine .obj ?_ ?_ (hperm.map fun field => (field.1, field.2.toJson))
  · have hkeys := (Fields.names_orderedLike others fields).symm
    simpa [Fields.names, Function.comp_def] using hkeys
  · simp only [Fields.orderedLike, List.map_map, List.forall₂_map_left_iff,
      List.forall₂_map_right_iff, List.forall₂_same]
    intro field hfield
    have hfind : Fields.find? fields field.1 = some field.2 :=
      h.distinct.find?_eq_some_iff.mpr hfield
    have hplace := hplaces field.1
    rw [hfind] at hplace
    rcases hplace.cases with ⟨hnone, -⟩ | ⟨part, other, hpart, hother, hsome⟩
    · simp at hnone
    · have htidy : field.2.Tidy := h.child? (Shape.child?_key_object field.1 fields ▸ hfind)
      have htidy' : other.Tidy := h'.child? (Shape.child?_key_object field.1 others ▸ hother)
      rw [hother] at hplace
      simpa [hother] using ih field hfield other htidy htidy' hplace

theorem forall₂_of_places {rel : Shape → Shape → Prop} {items others : List Shape}
    (hplaces : ∀ i : Nat, Alike items[i]? others[i]?)
    (h : ∀ item ∈ items, ∀ other ∈ others, Alike (some item) (some other) → rel item other) :
    List.Forall₂ rel items others := by
  induction items generalizing others with
  | nil =>
      cases others with
      | nil => exact .nil
      | cons other more => simpa using (hplaces 0).map_kind
  | cons item rest ih =>
      cases others with
      | nil => simpa using (hplaces 0).map_kind
      | cons other more =>
          have hfirst : rel item other := h item (by simp) other (by simp) (hplaces 0)
          apply List.Forall₂.cons hfirst
          apply ih fun i => hplaces (i + 1)
          exact fun item hitem other hother =>
            h item (List.mem_cons_of_mem _ hitem) other (List.mem_cons_of_mem _ hother)

theorem alike_toJson_array {items others : List Shape}
    (ih : ∀ item ∈ items, ∀ other : Shape, item.Tidy → other.Tidy →
      Alike (some item) (some other) → Json.Alike item.toJson other.toJson)
    (h : (array items).Tidy) (h' : (array others).Tidy)
    (halike : Alike (some (.array items)) (some (.array others))) :
    Json.Alike (array items).toJson (array others).toJson := by
  have hplaces : ∀ i : Nat, Alike items[i]? others[i]? := fun i => halike.child? (.index i)
  rw [toJson, toJson, itemsToJson_eq_map, itemsToJson_eq_map]
  apply Json.Alike.arr
  rw [List.forall₂_map_left_iff, List.forall₂_map_right_iff]
  apply forall₂_of_places hplaces
  intro item hitem other hother hsome
  exact ih item hitem other (h.items item hitem) (h'.items other hother) hsome

/-- Alike shapes with distinct keys have the same JSON value up to the order of keys. -/
theorem Alike.toJson {shape other : Shape} (h : shape.Tidy) (h' : other.Tidy)
    (halike : Alike (some shape) (some other)) : Json.Alike shape.toJson other.toJson := by
  induction shape using induction_on_parts generalizing other with
  | object fields ih =>
      cases other with
      | object others =>
          apply alike_toJson_object _ h h' halike
          exact fun field hfield other htidy htidy' => ih field hfield htidy htidy'
      | _ => simpa [Shape.kind] using halike.kind
  | array items ih =>
      cases other with
      | array others =>
          apply alike_toJson_array _ h h' halike
          exact fun item hitem other htidy htidy' => ih item hitem htidy htidy'
      | _ => simpa [Shape.kind] using halike.kind
  | text value =>
      cases other with
      | text value' =>
          have hvalue : value = value' := by simpa [Shape.kind] using halike.kind
          exact hvalue ▸ .refl _
      | _ => simpa [Shape.kind] using halike.kind
  | flag value =>
      cases other with
      | flag value' =>
          have hvalue : value = value' := by simpa [Shape.kind] using halike.kind
          exact hvalue ▸ .refl _
      | _ => simpa [Shape.kind] using halike.kind

end Shape

end TemplateShape
