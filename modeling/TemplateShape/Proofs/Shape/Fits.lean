import TemplateShape.Outline.Refill
import TemplateShape.Proofs.Json.Objects
import TemplateShape.Proofs.Shape.Tidy

/-! # Values that fit a shape

A refill makes a value fit the shape, and what fits is left as it is. So whatever is done to values
that were refilled lasts, as long as they still fit. A refill goes place by place: what stands at a
place afterwards is a refill of what stood there before. -/

namespace TemplateShape.Shape

mutual

/-- A value has the structure of a shape: an array where the shape has one, an object with the same
keys in the same order, and anything where the shape is plain. -/
inductive Fits : Shape → Json → Prop
  | text (sample : String) (value : Json) : Fits (.text sample) value
  | flag (sample : Bool) (value : Json) : Fits (.flag sample) value
  | array (samples : List Shape) (items : List Json) : Fits (.array samples) (.arr items)
  | object {fields : List (String × Shape)} {entries : List (String × Json)}
      (h : FieldsFit fields entries) : Fits (.object fields) (.obj entries)

/-- Entries have the keys of fields, and their values fit the shapes of these. -/
inductive FieldsFit : List (String × Shape) → List (String × Json) → Prop
  | nil : FieldsFit [] []
  | cons {key : String} {shape : Shape} {value : Json} {fields : List (String × Shape)}
      {entries : List (String × Json)} (hvalue : Fits shape value) (hrest : FieldsFit fields entries) :
      FieldsFit ((key, shape) :: fields) ((key, value) :: entries)

end

theorem fits_of_isPlain {shape : Shape} (h : shape.isPlain = true) (value : Json) :
    shape.Fits value := by
  cases shape with
  | text sample => exact .text sample value
  | flag sample => exact .flag sample value
  | object fields => simp [isPlain] at h
  | array samples => simp [isPlain] at h

namespace FieldsFit

variable {fields : Fields Shape} {entries : Fields Json}

theorem names_eq (h : FieldsFit fields entries) : Fields.names entries = Fields.names fields := by
  induction fields generalizing entries with
  | nil =>
      cases h with
      | nil => rfl
  | cons field rest ih =>
      cases h with
      | cons hvalue hrest => simpa [Fields.names] using ih hrest

theorem distinct (h : FieldsFit fields entries) (hdistinct : Fields.Distinct fields) :
    Fields.Distinct entries := by
  unfold Fields.Distinct
  rw [h.names_eq]
  exact hdistinct

/-- Below a key of entries stands a value that fits the shape below it. -/
theorem exists_shape (h : FieldsFit fields entries) {key : String} {value : Json}
    (hvalue : Fields.find? entries key = some value) :
    ∃ shape, Fields.find? fields key = some shape ∧ shape.Fits value := by
  induction fields generalizing entries with
  | nil =>
      cases h with
      | nil => simp [Fields.find?] at hvalue
  | cons field rest ih =>
      cases h with
      | @cons name shape other _ more hother hrest =>
          rw [Fields.find?_cons] at hvalue ⊢
          by_cases hkey : key = name
          · rw [if_pos hkey] at hvalue ⊢
            exact ⟨shape, rfl, Option.some.inj hvalue ▸ hother⟩
          · rw [if_neg hkey] at hvalue ⊢
            exact ih hrest hvalue

theorem alter (h : FieldsFit fields entries) {key : String} {old : Json}
    (hold : Fields.find? entries key = some old) {f : Json → Json}
    (hf : ∀ shape, Fields.find? fields key = some shape → shape.Fits old → shape.Fits (f old))
    (fresh : Json) : FieldsFit fields (Fields.alter key fresh f entries) := by
  induction fields generalizing entries with
  | nil =>
      cases h with
      | nil => simp [Fields.find?] at hold
  | cons field rest ih =>
      cases h with
      | @cons name shape other _ more hother hrest =>
          rw [Fields.find?_cons] at hold
          simp only [Fields.find?_cons] at hf
          rw [Fields.alter_cons]
          by_cases hkey : key = name
          · have heq : other = old := by simpa [hkey] using hold
            have hnew := hf shape (by simp [hkey]) (heq ▸ hother)
            simpa [hkey, heq] using FieldsFit.cons hnew hrest
          · have hname : ¬ name = key := fun heq => hkey heq.symm
            have hlater : FieldsFit rest (Fields.alter key fresh f more) :=
              ih hrest (by simpa [hkey] using hold) (by simpa [hkey] using hf)
            simpa [hname] using FieldsFit.cons hother hlater

end FieldsFit

/-! ## Samples -/

theorem refillFields_nil (fields : Fields Shape) :
    refillFields fields [] = fieldsToJson fields := by
  induction fields with
  | nil => rfl
  | cons field rest ih =>
      rw [refillFields, fieldsToJson, ih]
      rfl

theorem refill_none (shape : Shape) : shape.refill none = shape.toJson := by
  cases shape with
  | text sample => rfl
  | flag sample => rfl
  | array samples => rfl
  | object fields => exact congrArg Json.obj (refillFields_nil fields)

theorem refillFields_cons (key : String) (shape : Shape) (rest : Fields Shape)
    (existing : Fields Json) :
    refillFields ((key, shape) :: rest) existing =
      (key, shape.refill (Fields.find? existing key)) :: refillFields rest existing := by
  rw [refillFields]
  cases Fields.find? existing key with
  | some value => rfl
  | none => rw [refill_none]

theorem refillFields_eq_map (fields : Fields Shape) (existing : Fields Json) :
    refillFields fields existing =
      fields.map fun (key, shape) => (key, shape.refill (Fields.find? existing key)) := by
  induction fields with
  | nil => rfl
  | cons field rest ih => rw [refillFields_cons, ih, List.map_cons]

/-! ## Refills -/

mutual

/-- What a refill gives fits. -/
theorem fits_refill (shape : Shape) (existing : Option Json) :
    shape.Fits (shape.refill existing) := by
  match shape with
  | .text sample => exact .text sample _
  | .flag sample => exact .flag sample _
  | .array samples =>
      unfold refill
      split
      · exact .array samples _
      · exact .array samples _
  | .object fields => exact .object (fieldsFit_refillFields fields _)

theorem fieldsFit_refillFields (fields : List (String × Shape)) (existing : Fields Json) :
    FieldsFit fields (refillFields fields existing) := by
  match fields with
  | [] => exact .nil
  | (key, shape) :: rest =>
      rw [refillFields_cons]
      exact .cons (fits_refill shape _) (fieldsFit_refillFields rest existing)

end

mutual

theorem Fits.refill_eq {shape : Shape} {value : Json} (h : shape.Fits value) (htidy : shape.Tidy) :
    shape.refill (some value) = value := by
  match h with
  | .text sample value => rfl
  | .flag sample value => rfl
  | .array samples items => rfl
  | .object hfields =>
      have hdistinct := hfields.distinct htidy.distinct
      rw [refill]
      apply congrArg Json.obj
      apply hfields.refillFields_eq
      · intro field hfield
        have hchild : child? (.key field.1) (.object _) = some field.2 :=
          htidy.distinct.find?_eq_some_iff.mpr hfield
        exact htidy.child? hchild
      · intro entry hentry
        exact hdistinct.find?_eq_some_iff.mpr hentry

theorem FieldsFit.refillFields_eq {fields : Fields Shape} {entries existing : Fields Json}
    (h : FieldsFit fields entries) (htidy : ∀ field ∈ fields, field.2.Tidy)
    (hfind : ∀ entry ∈ entries, Fields.find? existing entry.1 = some entry.2) :
    refillFields fields existing = entries := by
  match h with
  | .nil => rfl
  | .cons hvalue hrest =>
      rcases List.forall_mem_cons.mp htidy with ⟨hshape, hshapes⟩
      rcases List.forall_mem_cons.mp hfind with ⟨hfound, hfounds⟩
      rw [refillFields_cons, hfound, hvalue.refill_eq hshape, hrest.refillFields_eq hshapes hfounds]

end

/-- A refill brings in no key twice. -/
theorem distinct_of_refill {shape : Shape} (htidy : shape.Tidy) {existing : Option Json}
    (hexisting : ∀ value, existing = some value → value.Tidy) {fields : Fields Json}
    (h : shape.refill existing = .obj fields) : Fields.Distinct fields := by
  have hkept : existing = some (.obj fields) → Fields.Distinct fields :=
    fun heq => (hexisting (.obj fields) heq).distinct
  cases shape with
  | text sample =>
      cases existing with
      | none => simp [refill] at h
      | some value => exact hkept (congrArg some h)
  | flag sample =>
      cases existing with
      | none => simp [refill] at h
      | some value => exact hkept (congrArg some h)
  | array samples =>
      have hfits := fits_refill (.array samples) existing
      rw [h] at hfits
      cases hfits
  | object shapes =>
      have hfits := fits_refill (.object shapes) existing
      rw [h] at hfits
      cases hfits with
      | object hfields => exact hfields.distinct htidy.distinct

theorem fits_toJson (shape : Shape) : shape.Fits shape.toJson :=
  refill_none shape ▸ fits_refill shape none

theorem refill_eq_self_iff {shape : Shape} (htidy : shape.Tidy) {value : Json} :
    shape.refill (some value) = value ↔ shape.Fits value := by
  constructor
  · intro heq
    exact heq ▸ fits_refill shape (some value)
  · exact fun h => h.refill_eq htidy

/-! ## Values at places -/

theorem find?_refillFields (fields : Fields Shape) (existing : Fields Json) (key : String) :
    Fields.find? (refillFields fields existing) key =
      (Fields.find? fields key).map (·.refill (Fields.find? existing key)) := by
  induction fields with
  | nil => rfl
  | cons field rest ih =>
      rcases field with ⟨name, shape⟩
      rw [refillFields_cons, Fields.find?_cons, Fields.find?_cons]
      by_cases hkey : key = name
      · rw [if_pos hkey, if_pos hkey, hkey]
        rfl
      · rw [if_neg hkey, if_neg hkey, ih]

/-- A refill of a shape is, at every place that keys lead to, the refill of the shape at that place
with what was there. -/
theorem get?_refill {shape node : Shape} {keys : List String}
    (h : shape.get? (keys.map .key) = some node) (existing : Option Json) :
    (shape.refill existing).get? keys = some (node.refill (existing.bind (·.get? keys))) := by
  induction keys generalizing shape existing with
  | nil =>
      have heq : shape = node := Option.some.inj h
      subst heq
      cases existing <;> rfl
  | cons key rest ih =>
      rcases Option.bind_eq_some_iff.mp h with ⟨part, hpart, hrest⟩
      cases shape with
      | object fields =>
          have hfind : Fields.find? fields key = some part := hpart
          have hbelow := ih hrest (Fields.find? ((existing.bind Json.fields?).getD []) key)
          rw [refill, Json.get?, Json.fields?, Option.getD_some, find?_refillFields, hfind,
            Option.map_some, Option.bind_some, hbelow]
          cases existing with
          | none => rfl
          | some value => rfl
      | array samples => simp at hpart
      | text sample => simp [child?] at hpart
      | flag sample => simp [child?] at hpart

theorem refill_of_isPlain {shape : Shape} (h : shape.isPlain = true) (existing : Option Json) :
    shape.refill existing = existing.getD shape.toJson := by
  cases shape with
  | text sample => rfl
  | flag sample => rfl
  | object fields => simp [isPlain] at h
  | array samples => simp [isPlain] at h

theorem get?_refill_of_isPlain {shape leaf : Shape} {keys : List String}
    (h : shape.get? (keys.map .key) = some leaf) (hleaf : leaf.isPlain = true)
    (existing : Option Json) :
    (shape.refill existing).get? keys =
      some ((existing.bind (·.get? keys)).getD leaf.toJson) := by
  rw [get?_refill h, refill_of_isPlain hleaf]

/-- A refill keeps exactly what fits. At every place that keys lead to through the objects of a shape
there is a value. If the shape there is plain, that is what was there, whatever it is; if it is an
array, what was there stays if it is an array, too; and in both cases the sample stands there
otherwise. If it is an object, so is the value, with the same keys in the same order. -/
theorem refill_keeps_what_fits {shape node : Shape} {keys : List String}
    (h : shape.get? (keys.map .key) = some node) (existing : Option Json) :
    ∃ value, (shape.refill existing).get? keys = some value ∧
      (node.isPlain = true → value = (existing.bind (·.get? keys)).getD node.toJson) ∧
      (∀ samples, node = .array samples →
        (∀ items, existing.bind (·.get? keys) = some (.arr items) → value = .arr items) ∧
        ((∀ items, existing.bind (·.get? keys) ≠ some (.arr items)) → value = node.toJson)) ∧
      (∀ fields, node = .object fields →
        ∃ entries, value = .obj entries ∧ Fields.names entries = Fields.names fields) := by
  refine ⟨_, get?_refill h existing, fun hplain => refill_of_isPlain hplain _, ?_, ?_⟩
  · rintro samples rfl
    refine ⟨fun items hitems => by rw [hitems, refill], ?_⟩
    intro hnone
    rw [refill]
    · rfl
    · exact hnone
  · rintro fields rfl
    exact ⟨_, rfl, (fieldsFit_refillFields fields _).names_eq⟩

/-- A text does not stay in the place of a list, but the null beside it stays. -/
theorem refill_keeps_what_fits_null : ∃ (shape : Shape) (existing : Json),
    shape.get? (["user", "name"].map .key) = some .printed ∧
    shape.get? (["user", "tags"].map .key) = some (.array [.printed]) ∧
    existing.get? ["user", "tags"] = some (.str "a, b") ∧
    (shape.refill (some existing)).get? ["user", "name"] = some .null ∧
    (shape.refill (some existing)).get? ["user", "tags"] = some (.arr [.str ""]) := by
  refine ⟨.object [("user", .object [("name", .printed), ("tags", .array [.printed])])],
    .obj [("user", .obj [("tags", .str "a, b"), ("name", .null)])], rfl, rfl, rfl, ?_, ?_⟩
  · have hname : (object [("user", .object [("name", .printed), ("tags", .array [.printed])])]).get?
        (["user", "name"].map .key) = some .printed := rfl
    obtain ⟨value, hvalue, hplain, -⟩ := refill_keeps_what_fits hname
      (some (.obj [("user", .obj [("tags", .str "a, b"), ("name", .null)])]))
    rw [hvalue, hplain rfl]
    rfl
  · have htags : (object [("user", .object [("name", .printed), ("tags", .array [.printed])])]).get?
        (["user", "tags"].map .key) = some (.array [.printed]) := rfl
    obtain ⟨value, hvalue, -, harray, -⟩ := refill_keeps_what_fits htags
      (some (.obj [("user", .obj [("tags", .str "a, b"), ("name", .null)])]))
    have hsample := (harray [.printed] rfl).2 (by simp [Json.get?, Json.fields?, Fields.find?])
    rw [hvalue, hsample]
    rfl

end TemplateShape.Shape
