import ScriptSyntax.Text.Unprintable

/-!
Quoted text: a text between double quotes in which every character that would be lost to the eye, or
would end the text, is written by an escape.
-/

namespace ScriptSyntax.Text

/-- A character by its number, in lower-case hexadecimal digits without padding. -/
def numbered (c : Char) : List Char :=
  ['\\', 'u', '\x7b'] ++ Nat.toDigits 16 c.toNat ++ ['\x7d']

/-- The written form of one character of a quoted text.  An apostrophe stands for itself. -/
def escape (c : Char) : List Char :=
  match c with
  | '"' => ['\\', '"']
  | '\\' => ['\\', '\\']
  | '\n' => ['\\', 'n']
  | '\r' => ['\\', 'r']
  | '\t' => ['\\', 't']
  | '\x00' => ['\\', '0']
  | c => if isUnprintable c then numbered c else [c]

def quoted (text : String) : String :=
  "\"" ++ String.ofList (text.toList.flatMap escape) ++ "\""

end ScriptSyntax.Text
