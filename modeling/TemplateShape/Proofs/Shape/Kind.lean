import TemplateShape.Proofs.Shape.Growth

/-! # Kinds of shapes

What a shape is, apart from what it holds. Growth keeps the kind of a container, and a write turns a
plain value into an object. -/

namespace TemplateShape

/-- What a shape is, apart from what it holds. -/
inductive Shape.Kind
  | object
  | array
  | text (value : String)
  | flag (value : Bool)
  deriving DecidableEq

namespace Shape

def kind : Shape → Kind
  | .object _ => .object
  | .array _ => .array
  | .text value => .text value
  | .flag value => .flag value

def Kind.isContainer : Kind → Bool
  | .object | .array => true
  | .text _ | .flag _ => false

@[simp] theorem isContainer_kind (shape : Shape) : shape.kind.isContainer = !shape.isPlain := by
  cases shape <;> rfl

theorem Grows.kind_eq {before after : Shape} (h : before.Grows after)
    (hbefore : before.isPlain = false) : after.kind = before.kind := by
  obtain ⟨later, hlater, hext⟩ := h [] before rfl
  obtain rfl : after = later := Option.some.inj hlater
  cases before with
  | object fields =>
      obtain ⟨more, rfl, -⟩ := hext
      rfl
  | array items =>
      obtain ⟨more, rfl, -⟩ := hext
      rfl
  | text value => cases hbefore
  | flag value => cases hbefore

theorem kind_put_key {shape : Shape} (h : shape.isPlain = true) (name : String)
    (rest : List Step) (leaf : Shape) : (shape.put (.key name :: rest) leaf).kind = .object := by
  rw [put_of_isPlain h]
  rfl

end Shape

end TemplateShape
