import TemplateShape.Reserved

/-! # What the reading of templates may be told -/

namespace TemplateShape

/-- The choices on which the outline of a template depends. -/
structure Settings where
  /-- Further names that are no variables, in lower case, each once. -/
  reserved : List String := []
  /-- The entries that stand for those of a mapping looped over. -/
  entrySample : List (String × String) := [("key1", "value1"), ("key2", "value2")]
  /-- The greatest index to which an array is filled up. -/
  indexLimit : Nat := 1024

namespace Settings

/-- Reserves a name, in whatever case. -/
def reserve (settings : Settings) (name : String) : Settings :=
  let word := Ascii.lower name
  if settings.reserved.contains word then settings
  else { settings with reserved := settings.reserved ++ [word] }

def reserveAll (settings : Settings) (names : List String) : Settings :=
  names.foldl reserve settings

/-- Whether a name is no variable. -/
def ignores (settings : Settings) (name : String) : Bool :=
  Reserved.contains name || settings.reserved.contains (Ascii.lower name)

def sortedReserved (settings : Settings) : List String :=
  settings.reserved.mergeSort fun a b => a ≤ b

end Settings

end TemplateShape
