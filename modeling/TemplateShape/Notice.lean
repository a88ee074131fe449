import TemplateShape.Outline.Basic
import TemplateShape.Text.Quoted

/-! # Notices

What the reading of a template reports about its course. Notices are computed beside the result and
never change it. -/

namespace TemplateShape

/-- How much a notice matters. -/
inductive Level
  | trace
  | debug
  | warn
  deriving DecidableEq

def Level.name : Level → String
  | .trace => "trace"
  | .debug => "debug"
  | .warn => "warn"

/-- An event that is reported. -/
inductive Notice
  /-- A name got its first shape. -/
  | learned (name : String) (shape : Shape)
  /-- The shape of a name was replaced. -/
  | replaced (name : String) (existing incoming : Shape)
  /-- The shape of a name stayed. -/
  | kept (name : String) (existing incoming : Shape)
  /-- A write met an array where it needed an object. -/
  | writeDropped (key : String)
  /-- A path was too deep to be written. -/
  | pathTooDeep (root : String) (depth : Nat)
  /-- A text could not be split into the steps of a path. -/
  | pathUnreadable (text : String)
  /-- An index was too large to fill an array up to it. -/
  | indexTooLarge (base : String) (digits : String) (limit : Nat)
  /-- The items of a list have these fields. -/
  | itemFields (list : String) (fields : List String)
  /-- A pass is over, and so many variables have a shape and are read. -/
  | passDone (pass : String) (shapes readNames : Nat)
  /-- The reading is over, and so many variables were found. -/
  | done (count : Nat)

namespace Notice

def level : Notice → Level
  | .learned .. | .replaced .. | .kept .. => .trace
  | .writeDropped .. | .itemFields .. | .passDone .. | .done .. => .debug
  | .pathTooDeep .. | .pathUnreadable .. | .indexTooLarge .. => .warn

def quotedList (names : List String) : String :=
  let inner := ", ".intercalate (names.map Text.quoted)
  s!"[{inner}]"

def message : Notice → String
  | .learned name shape => s!"{name}: recorded {shape.render}"
  | .replaced name existing incoming =>
      s!"{name}: {existing.render} replaced by {incoming.render}"
  | .kept name existing incoming => s!"{name}: kept {existing.render} over {incoming.render}"
  | .writeDropped key => s!"dropping write through key '{key}' on an array"
  | .pathTooDeep root depth => s!"skipping '{root}...': {depth} levels deep"
  | .pathUnreadable text => s!"could not split path '{text}'"
  | .indexTooLarge base digits limit => s!"not padding {base}[{digits}]: above limit of {limit}"
  | .itemFields list fields => s!"{list}: loop items carry {quotedList fields}"
  | .passDone pass shapes readNames =>
      s!"after {pass} pass: {shapes} shapes, {readNames} referenced"
  | .done count => s!"inferred {count} variables"

/-- The notices of a run: `step` changes the state for each item, and `notices` says what it
reports in the state before. -/
def along {σ α : Type} (step : σ → α → σ) (notices : σ → α → List Notice) :
    σ → List α → List Notice
  | _, [] => []
  | state, item :: rest => notices state item ++ along step notices (step state item) rest

end Notice

/-! ## Notices of writes -/

def Shape.putNotices (shape : Shape) (path : List Step) : List Notice :=
  (shape.blockedKey? path).toList.map .writeDropped

namespace Outline

def learnNotices (outline : Outline) (policy : Policy) (name : String) (shape : Shape) :
    List Notice :=
  match outline.find? name with
  | none => [.learned name shape]
  | some existing =>
      if policy.replaces existing shape then [.replaced name existing shape]
      else [.kept name existing shape]

def putNotices (outline : Outline) (path : List Step) : List Notice :=
  match path with
  | .key root :: rest => ((outline.find? root).map (·.putNotices rest)).getD []
  | _ => []

end Outline

end TemplateShape
