import TemplateShape.Proofs.Shape.Growth

/-! # Shapes without repeated keys

A write keeps the keys of every object distinct, wherever it leads. -/

namespace TemplateShape.Shape

/-- No object in a shape has a key twice. -/
def Tidy (shape : Shape) : Prop :=
  ∀ path fields, shape.get? path = some (.object fields) → Fields.Distinct fields

theorem Tidy.distinct {fields : Fields Shape} (h : (object fields).Tidy) :
    Fields.Distinct fields :=
  h [] fields rfl

theorem Tidy.child? {shape part : Shape} {step : Step} (h : shape.Tidy)
    (hpart : Shape.child? step shape = some part) : part.Tidy := by
  intro path fields hpath
  apply h (step :: path)
  rw [get?_cons, hpart]
  exact hpath

theorem Tidy.of_child? {shape : Shape}
    (hfields : ∀ fields, shape = .object fields → Fields.Distinct fields)
    (hparts : ∀ step part, Shape.child? step shape = some part → part.Tidy) : shape.Tidy := by
  intro path fields hpath
  cases path with
  | nil => exact hfields fields (Option.some.inj hpath)
  | cons step rest =>
      obtain ⟨part, hpart, hrest⟩ := Option.bind_eq_some_iff.mp hpath
      exact hparts step part hpart rest fields hrest

theorem Tidy.of_isPlain {shape : Shape} (h : shape.isPlain = true) : shape.Tidy := by
  intro path fields hpath
  obtain ⟨-, rfl⟩ := get?_of_isPlain h hpath
  simp [isPlain] at h

theorem tidy_array {items : List Shape} (h : ∀ item ∈ items, item.Tidy) : (array items).Tidy := by
  apply Tidy.of_child?
  · intro fields heq
    simp at heq
  · intro step part hpart
    cases step with
    | key name => simp at hpart
    | index i => exact h part (List.mem_of_getElem? hpart)

theorem tidy_object {fields : Fields Shape} (hdistinct : Fields.Distinct fields)
    (h : ∀ field ∈ fields, field.2.Tidy) : (object fields).Tidy := by
  apply Tidy.of_child?
  · intro others heq
    have hothers : fields = others := by simpa using heq
    exact hothers ▸ hdistinct
  · intro step part hpart
    cases step with
    | key name => exact h (name, part) (Fields.mem_of_find? hpart)
    | index i => simp at hpart

theorem tidy_object_nil : (object []).Tidy :=
  tidy_object (by simp [Fields.Distinct, Fields.names]) (by simp)

/-! ## Writes -/

theorem tidy_freshPlace (rest : List Step) : (freshPlace rest).Tidy := by
  cases rest with
  | nil => exact .of_isPlain isPlain_printed
  | cons step rest =>
      cases step with
      | key name => exact tidy_object_nil
      | index i => exact tidy_array (by simp)

theorem Tidy.fields {shape : Shape} (h : shape.Tidy) :
    (object (shape.fields?.getD [])).Tidy := by
  cases shape with
  | object fields => exact h
  | array items => exact tidy_object_nil
  | text value => exact tidy_object_nil
  | flag value => exact tidy_object_nil

theorem Tidy.items {shape : Shape} (h : shape.Tidy) :
    ∀ item ∈ shape.items?.getD [], item.Tidy := by
  cases shape with
  | array items =>
      intro item hitem
      obtain ⟨i, hi⟩ := List.mem_iff_getElem?.mp hitem
      have hchild : Shape.child? (.index i) (.array items) = some item := hi
      exact h.child? hchild
  | object fields => simp [items?]
  | text value => simp [items?]
  | flag value => simp [items?]

theorem Tidy.alter {fields : Fields Shape} (h : (object fields).Tidy) (name : String)
    {fresh : Shape} (hfresh : fresh.Tidy) {f : Shape → Shape}
    (hf : ∀ part : Shape, part.Tidy → (f part).Tidy) :
    (object (Fields.alter name fresh f fields)).Tidy := by
  apply Tidy.of_child?
  · intro others heq
    have hothers : Fields.alter name fresh f fields = others := by simpa using heq
    exact hothers ▸ h.distinct.alter name fresh f
  · intro step part hpart
    cases step with
    | index i => simp at hpart
    | key key =>
        rw [child?_key_object, Fields.find?_alter] at hpart
        split at hpart
        · have hvalue : f ((Fields.find? fields name).getD fresh) = part := Option.some.inj hpart
          rw [← hvalue]
          cases hfind : Fields.find? fields name with
          | none => exact hf fresh hfresh
          | some old =>
              have hold : Shape.child? (.key name) (object fields) = some old := hfind
              exact hf old (h.child? hold)
        · have hold : Shape.child? (.key key) (object fields) = some part := hpart
          exact h.child? hold

theorem tidy_pad {items : List Shape} (h : ∀ item ∈ items, item.Tidy) (i : Nat) {f : Shape → Shape}
    (hf : ∀ part : Shape, part.Tidy → (f part).Tidy) :
    (array ((items.rightpad (i + 1) printed).modify i f)).Tidy := by
  have hprinted : printed.Tidy := .of_isPlain isPlain_printed
  exact tidy_array (forall_mem_rightpad_modify h hprinted hf i)

/-- A write brings in no key twice. -/
theorem Tidy.put {shape leaf : Shape} (h : shape.Tidy) (hleaf : leaf.Tidy) (path : List Step) :
    (shape.put path leaf).Tidy := by
  induction path generalizing shape with
  | nil =>
      rw [put_nil, replaced]
      split
      · exact h
      · exact hleaf
  | cons step rest ih =>
      rcases put_cases shape step rest leaf with hput | ⟨i, -, hput⟩ | ⟨-, items, rfl, hput⟩
      · rw [hput]
        exact h.fields.alter step.text (tidy_freshPlace rest) fun part hpart => ih hpart
      · rw [hput]
        exact tidy_pad h.items i fun part hpart => ih hpart
      · rw [hput]
        exact h

end TemplateShape.Shape
