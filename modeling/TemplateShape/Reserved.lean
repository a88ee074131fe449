import TemplateShape.Text.Ascii

/-! # Names of the template language

Names that never stand for a variable of the context. -/

namespace TemplateShape.Reserved

/-- Words that open, divide and close blocks. -/
def control : List String :=
  ["if", "elif", "else", "endif", "for", "endfor", "while", "endwhile", "set", "endset",
    "block", "endblock", "extends", "include", "import", "from", "macro", "endmacro", "call",
    "endcall", "filter", "endfilter", "with", "endwith", "autoescape", "endautoescape", "raw",
    "endraw", "trans", "endtrans", "pluralize"]

def operators : List String :=
  ["not", "and", "or", "in", "is", "true", "false", "none", "null"]

def tests : List String :=
  ["defined", "undefined", "boolean", "integer", "float", "number", "string", "sequence",
    "iterable", "mapping", "sameas", "escaped", "odd", "even", "divisibleby", "equalto"]

def functions : List String :=
  ["range", "lipsum", "dict", "cycler", "joiner", "len", "abs", "round", "min", "max", "sum",
    "list", "tuple", "sorted", "reversed", "enumerate", "zip", "map", "any", "all"]

/-- All names of the language; `loop` is the state of the loop around. -/
def all : List String :=
  control ++ operators ++ tests ++ functions ++ ["loop"]

def contains (name : String) : Bool :=
  all.contains (Ascii.lower name)

end TemplateShape.Reserved
