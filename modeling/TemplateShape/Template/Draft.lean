import TemplateShape.Template.Pass

/-! # Drafts

The state of a reading under way: what is known of the variables, and which of them the template
reads. -/

namespace TemplateShape

/-- An outline in the making. -/
structure Draft where
  outline : Outline := {}
  /-- The names that are read, each once, first seen first. -/
  readNames : List String := []

namespace Draft

def markRead (draft : Draft) (name : String) : Draft :=
  if draft.readNames.contains name then draft
  else { draft with readNames := draft.readNames ++ [name] }

def add (settings : Settings) (draft : Draft) (finding : Finding) : Draft :=
  let draft := draft.markRead finding.root
  { draft with outline := (finding.edits settings).foldl Edit.apply draft.outline }

def addNotices (settings : Settings) (draft : Draft) (finding : Finding) : List Notice :=
  Notice.along Edit.apply Edit.notices draft.outline (finding.edits settings)

def run (settings : Settings) (template : List Char) (draft : Draft) (pass : Pass) : Draft :=
  (pass.findings settings template).foldl (add settings) draft

/-- What a pass reports: its findings, and how far the draft is behind it. -/
def runNotices (settings : Settings) (template : List Char) (draft : Draft) (pass : Pass) :
    List Notice :=
  let after := draft.run settings template pass
  Notice.along (add settings) (addNotices settings) draft (pass.findings settings template) ++
    [.passDone pass.name after.outline.size after.readNames.length]

def close (draft : Draft) : Outline :=
  draft.outline.restrict draft.readNames

end Draft

end TemplateShape
