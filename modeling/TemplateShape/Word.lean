/-! # Words of 64 bits

The ranges of the integers that fit a word. -/

namespace TemplateShape.Word

def unsignedBound : Nat := 0x10000000000000000

/-- Words with a sign are below this bound and not below its negative. -/
def signedBound : Nat := 0x8000000000000000

def fitsSigned (n : Int) : Bool :=
  -signedBound ≤ n && n < signedBound

end TemplateShape.Word
