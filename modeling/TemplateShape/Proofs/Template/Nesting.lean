import TemplateShape.Proofs.Json.Values
import TemplateShape.Proofs.Template.Bounds

/-! # How deep outlines are nested

The shapes of a template are within their bounds, and so they are not nested deep: the JSON text of
every variable, and that of the outline around them, can be read again. -/

namespace TemplateShape

open Shape

/-! ## Shapes -/

namespace Shape

/-- Every container stands at the end of fewer steps than that. -/
def Shallow (depth : Nat) (shape : Shape) : Prop :=
  ∀ path part, shape.get? path = some part → part.isPlain = false → path.length < depth

theorem Shallow.child? {depth : Nat} {shape part : Shape} {step : Step}
    (h : shape.Shallow (depth + 1)) (hpart : Shape.child? step shape = some part) :
    part.Shallow depth := by
  intro path other hother hcontainer
  have hpath : shape.get? (step :: path) = some other := by
    rw [get?_cons, hpart]
    exact hother
  have hlength := h (step :: path) other hpath hcontainer
  simpa using hlength

/-- A shape that is not nested too deep has a JSON value that is not. -/
theorem numberFree_toJson {depth : Nat} {shape : Shape} (htidy : shape.Tidy)
    (hshallow : shape.Shallow depth) : Json.NumberFree depth shape.toJson := by
  induction depth generalizing shape with
  | zero =>
      cases shape with
      | object fields => exact absurd (hshallow [] _ rfl rfl) (Nat.not_lt_zero _)
      | array items => exact absurd (hshallow [] _ rfl rfl) (Nat.not_lt_zero _)
      | text value => exact .str value
      | flag value => exact .bool value
  | succ depth ih =>
      cases shape with
      | object fields =>
          rw [toJson, fieldsToJson_eq_map]
          apply Json.NumberFree.obj
          · simpa [Fields.Distinct, Fields.names, Function.comp_def] using htidy.distinct
          · intro field hfield
            rcases List.mem_map.mp hfield with ⟨⟨key, part⟩, hmem, heq⟩
            subst heq
            have hpart : Shape.child? (.key key) (.object fields) = some part :=
              htidy.distinct.find?_eq_some_iff.mpr hmem
            exact ih (htidy.child? hpart) (hshallow.child? hpart)
      | array items =>
          rw [toJson, itemsToJson_eq_map]
          apply Json.NumberFree.arr
          intro value hvalue
          rcases List.mem_map.mp hvalue with ⟨item, hitem, heq⟩
          subst heq
          rcases List.mem_iff_getElem?.mp hitem with ⟨i, hi⟩
          have hpart : Shape.child? (.index i) (.array items) = some item := hi
          exact ih (htidy.child? hpart) (hshallow.child? hpart)
      | text value => exact .str value
      | flag value => exact .bool value

theorem Shallow.of_isPlain {shape : Shape} (h : shape.isPlain = true) (depth : Nat) :
    shape.Shallow depth := by
  intro path part hpart hcontainer
  rw [(get?_of_isPlain h hpart).2, h] at hcontainer
  simp at hcontainer

theorem Shallow.of_child? {depth : Nat} {shape : Shape}
    (h : ∀ step part, Shape.child? step shape = some part → part.Shallow depth) :
    shape.Shallow (depth + 1) := by
  intro path part hpart hcontainer
  cases path with
  | nil => simp
  | cons step rest =>
      rcases Option.bind_eq_some_iff.mp hpart with ⟨child, hchild, hrest⟩
      exact Nat.succ_lt_succ (h step child hchild rest part hrest hcontainer)

/-- The containers of a bounded shape stand at the end of fewer steps than its bound. -/
theorem Bounded.shallow {settings : Settings} {depth : Nat} {shape : Shape}
    (h : shape.Bounded settings depth) : shape.Shallow depth := by
  induction h with
  | object hkeys hfields ih =>
      apply Shallow.of_child?
      intro step part hpart
      cases step with
      | key name => exact ih (name, part) (Fields.mem_of_find? hpart)
      | index i => simp at hpart
  | array hlength hitems ih =>
      apply Shallow.of_child?
      intro step part hpart
      cases step with
      | key name => simp at hpart
      | index i => exact ih part (List.mem_of_getElem? hpart)
  | text hvalue => exact .of_isPlain rfl _
  | flag => exact .of_isPlain rfl _

end Shape

/-! ## Outlines -/

theorem Json.NumberFree.mono {depth depth' : Nat} {value : Json} (h : NumberFree depth value)
    (hle : depth ≤ depth') : NumberFree depth' value := by
  induction h generalizing depth' with
  | null => exact .null
  | bool value => exact .bool value
  | str text => exact .str text
  | arr hitems ih =>
      obtain ⟨more, rfl⟩ := Nat.exists_eq_add_of_le' hle
      exact .arr fun item hitem => ih item hitem (Nat.le_add_left _ more)
  | obj hdistinct hfields ih =>
      obtain ⟨more, rfl⟩ := Nat.exists_eq_add_of_le' hle
      exact .obj hdistinct fun field hfield => ih field hfield (Nat.le_add_left _ more)

namespace Outline

variable {settings : Settings} {template root : String} {shape : Shape}

theorem numberFree_find?_ofTemplate (h : (ofTemplate settings template).find? root = some shape) :
    Json.NumberFree Finding.depthLimit shape.toJson :=
  numberFree_toJson (tidy_find?_ofTemplate h) (bounded_find?_ofTemplate h).shallow

theorem parse_render_ofTemplate (h : (ofTemplate settings template).find? root = some shape) :
    Json.parse shape.render = .ok shape.toJson :=
  ((numberFree_find?_ofTemplate h).mono (by decide)).parse_render

theorem numberFree_toJson_ofTemplate (settings : Settings) (template : String) :
    Json.NumberFree (Finding.depthLimit + 1) (ofTemplate settings template).toJson := by
  have hdistinct := distinct_ofTemplate settings template
  apply Json.NumberFree.obj
  · simpa [Fields.Distinct, Fields.names, values, Function.comp_def] using hdistinct
  · intro field hfield
    obtain ⟨⟨name, shape⟩, hmem, rfl⟩ := List.mem_map.mp hfield
    exact numberFree_find?_ofTemplate (hdistinct.find?_eq_some_iff.mpr hmem)

end Outline

namespace Template

/-- Every shape of a template is bounded: its containers are nested at most 64 deep, its arrays are
no longer than the greater of 2 and what is filled up to the limit of indices, its keys are names,
texts of indices up to the limit or keys of the sample, and its plain values are `""`, true or
values of the sample. So the JSON value of the outline nests at most 65 deep, and its text can be
read again. -/
theorem shapes_are_bounded (settings : Settings) (template : String) :
    (∀ entry ∈ (Outline.ofTemplate settings template).entries, entry.2.Bounded settings 64) ∧
    Json.NumberFree 65 (Outline.ofTemplate settings template).toJson ∧
    Json.parse (Outline.ofTemplate settings template).render =
      .ok (Outline.ofTemplate settings template).toJson := by
  have hnumberFree := Outline.numberFree_toJson_ofTemplate settings template
  refine ⟨?_, hnumberFree, (hnumberFree.mono (by decide)).parse_render⟩
  intro entry hentry
  have hdistinct := Outline.distinct_ofTemplate settings template
  exact Outline.bounded_find?_ofTemplate (hdistinct.find?_eq_some_iff.mpr hentry)

/-- The bound on the depth is reached: 63 objects, one in the other, and an array in the last. -/
theorem shapes_are_bounded_deepest :
    ∃ entry ∈ (Outline.ofTemplate {} ("\x7b\x7b " ++ ".".intercalate (List.replicate 64 "a") ++
      "[1] \x7d\x7d")).entries, entry.2.Bounded {} 64 ∧ ¬ entry.2.Bounded {} 63 := by
  have hdeep : (Outline.ofTemplate {} ("\x7b\x7b " ++ ".".intercalate (List.replicate 64 "a") ++
      "[1] \x7d\x7d")).entries.any (fun entry =>
        (entry.2.get? (List.replicate 63 (.key "a"))).any Shape.isContainer) = true := by
    decide +kernel
  obtain ⟨entry, hentry, hpart⟩ := List.any_eq_true.mp hdeep
  obtain ⟨part, hget, hcontainer⟩ := (Option.any_eq_true ..).mp hpart
  refine ⟨entry, hentry, (shapes_are_bounded {} _).1 entry hentry, ?_⟩
  intro hless
  have hplain : part.isPlain = false := by simpa [isContainer] using hcontainer
  have hlength := hless.shallow _ part hget hplain
  simp at hlength

end Template

end TemplateShape
