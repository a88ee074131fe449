import TemplateShape.Template.Draft

/-! # The outline of a template

The shapes of the variables that a template reads. Reading never fails: text that no pass knows
contributes nothing. -/

namespace TemplateShape

def Draft.ofTemplate (settings : Settings) (passes : List Pass) (template : List Char) : Draft :=
  passes.foldl (Draft.run settings template) {}

/-- The shapes of the variables that a template reads. -/
def Outline.ofTemplate (settings : Settings) (template : String) : Outline :=
  (Draft.ofTemplate settings Pass.all template.toList).close

def Outline.templateNotices (settings : Settings) (template : String) : List Notice :=
  Notice.along (Draft.run settings template.toList) (Draft.runNotices settings template.toList) {}
      Pass.all ++
    [.done (Outline.ofTemplate settings template).size]

end TemplateShape
