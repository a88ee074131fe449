import TemplateShape.Template.Finding

/-! # Passes

A pass goes over the whole template and looks for one kind of tag. The order of the passes decides
which shape a variable gets; which variables there are does not depend on it. -/

namespace TemplateShape

/-- The kinds of tag that are looked for. -/
inductive Pass
  | assignment
  | output
  | loop
  | entriesLoop
  | condition
  | itemAccess
  | loopItems
  deriving DecidableEq

namespace Pass

def all : List Pass :=
  [.assignment, .output, .loop, .entriesLoop, .condition, .itemAccess, .loopItems]

def name : Pass → String
  | .assignment => "assignment"
  | .output => "output"
  | .loop => "loop"
  | .entriesLoop => "dict-loop"
  | .condition => "condition"
  | .itemAccess => "indexed-access"
  | .loopItems => "loop-item-properties"

/-- The places of a template where a tag stands. -/
def matchesOf {α : Type} (tag : Scan α) (template : List Char) : List α :=
  Scan.findAll (fun _ => tag) template

/-- All uses that a pass sees, in the order of the template. -/
def uses (template : List Char) : Pass → List Finding
  | .assignment => (matchesOf Tag.assignment template).map .assigned
  | .output => (matchesOf Tag.output template).map .printed
  | .loop => (matchesOf Tag.loopHeader template).map fun header => .looped header.list
  | .entriesLoop => (matchesOf Tag.entriesHeader template).map .entriesLooped
  | .condition =>
      (matchesOf Tag.condition template).flatMap fun expression =>
        (Condition.reads (fun _ => false) expression).map .tested
  | .itemAccess => (matchesOf Tag.indexedOutput template).map .indexed
  | .loopItems =>
      (matchesOf Tag.loop template).map fun loop =>
        .itemsPrinted loop.header.list loop.fields

def findings (settings : Settings) (template : List Char) (pass : Pass) : List Finding :=
  (pass.uses template).filter fun finding => !settings.ignores finding.root

end Pass

end TemplateShape
