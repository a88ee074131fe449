import TemplateShape.Template.Condition
import TemplateShape.Notice
import TemplateShape.Settings
import TemplateShape.Template.Tag

/-! # Findings

What a template shows about one variable at one place, and what follows from it for the outline. -/

namespace TemplateShape

/-! ## Edits -/

/-- A change to an outline, or a remark that changes nothing. -/
inductive Edit
  /-- Learns a shape and reports it. -/
  | learn (policy : Policy) (name : String) (shape : Shape)
  /-- Learns a shape in silence. -/
  | assume (policy : Policy) (name : String) (shape : Shape)
  /-- Writes into the shape of a variable. -/
  | write (path : List Step) (leaf : Shape)
  /-- Reports something. -/
  | remark (notice : Notice)

namespace Edit

def apply (outline : Outline) : Edit → Outline
  | .learn policy name shape | .assume policy name shape => outline.learn policy name shape
  | .write path leaf => outline.put path leaf
  | .remark _ => outline

def notices (outline : Outline) : Edit → List Notice
  | .learn policy name shape => outline.learnNotices policy name shape
  | .assume .. => []
  | .write path _ => outline.putNotices path
  | .remark notice => [notice]

end Edit

/-! ## Findings -/

/-- One use of a variable. -/
inductive Finding
  /-- The source of an assignment. -/
  | assigned (source : NamePath)
  /-- A printed path. -/
  | printed (path : NamePath)
  /-- A list that is looped over. -/
  | looped (list : String)
  /-- A mapping whose entries are looped over. -/
  | entriesLooped (mapping : String)
  /-- A path that a condition reads. -/
  | tested (path : NamePath)
  /-- A printed item of an array. -/
  | indexed (path : Tag.IndexedPath)
  /-- A list, and the fields of its items that the body of a loop prints. -/
  | itemsPrinted (list : String) (fields : List String)

namespace Finding

def root : Finding → String
  | .assigned path | .printed path | .tested path => path.root
  | .looped name | .entriesLooped name | .itemsPrinted name _ => name
  | .indexed path => path.base.root

/-- Paths with more names than this are not written. -/
def depthLimit : Nat := 64

/-- Writes at the end of a path with further steps behind it, unless the path is too deep. -/
def writeAt (path : NamePath) (further : List Step) (leaf : Shape) : Edit :=
  if path.depth ≤ depthLimit then .write (path.steps ++ further) leaf
  else .remark (.pathTooDeep path.root path.depth)

/-- A path with a plain value at its end: a bare name is the value itself; the root of any other is
an object, with the value at the end of the path. -/
def editsOfPath (policy : Policy) (path : NamePath) (leaf : Shape) : List Edit :=
  if path.isBare then [.learn .keep path.root leaf]
  else [.learn policy path.root (.object []), writeAt path [] leaf]

def sampleObject (entries : List (String × String)) : Shape :=
  .object (Fields.ofList (entries.map fun (key, value) => (key, .text value)))

def sampleItems (fields : List String) : Shape :=
  let item := .object (fields.map fun field => (field, Shape.printed))
  .array [item, item]

/-- What follows for the outline. A path that is only tested is true; a bare one never changes a
shape that is there. -/
def edits (settings : Settings) : Finding → List Edit
  | .assigned source => editsOfPath .keep source Shape.printed
  | .printed path => editsOfPath .upgrade path Shape.printed
  | .looped list => [.assume .upgrade list (.array [Shape.printed])]
  | .entriesLooped mapping => [.learn .upgrade mapping (sampleObject settings.entrySample)]
  | .tested path =>
      if path.isBare then [.assume .keep path.root Shape.tested]
      else editsOfPath .upgrade path Shape.tested
  | .indexed path =>
      [.learn .upgrade path.base.root (if path.base.isBare then .array [] else .object []),
        if path.index ≤ settings.indexLimit then
          writeAt path.base [.index path.index] Shape.printed
        else
          .remark (.indexTooLarge path.base.text (String.ofList path.digits) settings.indexLimit)]
  | .itemsPrinted list fields =>
      if fields.isEmpty then []
      else [.remark (.itemFields list fields), .assume .restructure list (sampleItems fields)]

end Finding

end TemplateShape
