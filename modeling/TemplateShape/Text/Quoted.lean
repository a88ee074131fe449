import TemplateShape.Text.Printable
import TemplateShape.Text.Extending

/-! # Quoted text

A text in double quotes in which every character can be seen: quotes and backslashes are escaped,
and a character that does not show, or would attach to the one before it, stands as its code
point. -/

namespace TemplateShape.Text

def codePointChars (c : Char) : List Char :=
  '\\' :: 'u' :: '{' :: (Nat.toDigits 16 c.toNat ++ ['}'])

def quoteChar (c : Char) : List Char :=
  match c with
  | '\x00' => ['\\', '0']
  | '\t' => ['\\', 't']
  | '\n' => ['\\', 'n']
  | '\r' => ['\\', 'r']
  | '"' => ['\\', '"']
  | '\\' => ['\\', '\\']
  | c => if isPrintable c && !isExtending c then [c] else codePointChars c

def quoted (text : String) : String :=
  String.ofList ('"' :: (text.toList.flatMap quoteChar ++ ['"']))

end TemplateShape.Text
