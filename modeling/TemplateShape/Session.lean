import TemplateShape.Template.Outline
import TemplateShape.Outline.Refill
import TemplateShape.Form.Field
import TemplateShape.Form.Address

/-! # Sessions

A session holds the values that are being entered while the template may still change. -/

namespace TemplateShape

/-- The values entered so far, and how templates are read. -/
structure Session where
  settings : Settings := {}
  values : Fields Json := []

/-- Why an input was not taken. -/
inductive SessionError
  | noField
  | invalid (error : Form.InputError)

namespace Session

/-- The session with a new template: its variables keep the values that still fit. -/
def setTemplate (session : Session) (template : String) : Session :=
  { session with values := (Outline.ofTemplate session.settings template).refill session.values }

def form (session : Session) : List Form.Field :=
  Form.ofValues session.values

def enter (session : Session) (kind : Form.Kind) (raw name : String) :
    Except Form.InputError Session :=
  (kind.read raw).map fun value =>
    { session with values := Form.setValue session.values name value }

/-- The session with an input written into the first field of a name. -/
def fill (session : Session) (name raw : String) : Except SessionError Session :=
  match session.form.find? (·.name == name) with
  | none => .error .noField
  | some field => (session.enter field.kind raw field.name).mapError .invalid

end Session

end TemplateShape
