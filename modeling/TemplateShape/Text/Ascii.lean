/-! # Letters, digits and case inside ASCII

Names and word boundaries of a template are matters of ASCII alone: `é` is neither a letter nor
part of a word, and changing case leaves it as it is. -/

namespace TemplateShape.Ascii

def isNameStart (c : Char) : Bool :=
  c.isAlpha || c == '_'

def isWord (c : Char) : Bool :=
  c.isAlphanum || c == '_'

/-- A name: a letter or underscore, then letters, digits and underscores. -/
def isName : List Char → Bool
  | [] => false
  | c :: cs => isNameStart c && cs.all isWord

/-- Upper-case ASCII letters become lower-case; everything else stays. -/
def lower (text : String) : String :=
  String.ofList (text.toList.map Char.toLower)

theorem isWord_of_isNameStart {c : Char} (h : isNameStart c = true) : isWord c = true := by
  simp only [isNameStart, isWord, Char.isAlphanum, Bool.or_eq_true] at h ⊢
  rcases h with h | h
  · exact .inl (.inl h)
  · exact .inr h

end TemplateShape.Ascii
