/-!
Documents of nested records and lists, and their written form in JSON with two spaces for each level.
-/

namespace ScriptSyntax

/-- A document. -/
inductive Document where
  | text (s : String)
  | number (n : Nat)
  | list (items : List Document)
  /-- Fields in the order in which they are written. -/
  | record (fields : List (String × Document))

namespace Document

/-- The written form of one character of a text. -/
def escape (c : Char) : List Char :=
  match c with
  | '"' => ['\\', '"']
  | '\\' => ['\\', '\\']
  | '\x08' => ['\\', 'b']
  | '\x0c' => ['\\', 'f']
  | '\n' => ['\\', 'n']
  | '\r' => ['\\', 'r']
  | '\t' => ['\\', 't']
  | c =>
      if c.toNat < 0x20 then
        ['\\', 'u', '0', '0', Nat.digitChar (c.toNat / 16), Nat.digitChar (c.toNat % 16)]
      else [c]

def quote (s : String) : String :=
  "\"" ++ String.ofList (s.toList.flatMap escape) ++ "\""

/-- The start of a line at the given level. -/
def line (level : Nat) : String :=
  "\n".pushn ' ' (2 * level)

mutual
/-- Appends a document whose lines after the first are at the given level or deeper. -/
def write (level : Nat) (out : String) : Document → String
  | .text s => out ++ quote s
  | .number n => out ++ toString n
  | .list [] => out ++ "[]"
  | .list (item :: items) =>
      writeItems (level + 1) (write (level + 1) (out ++ "[" ++ line (level + 1)) item) items ++
        line level ++ "]"
  | .record [] => out ++ "\x7b\x7d"
  | .record ((key, value) :: fields) =>
      let out := out ++ "\x7b" ++ line (level + 1) ++ quote key ++ ": "
      writeFields (level + 1) (write (level + 1) out value) fields ++ line level ++ "\x7d"
/-- Appends the further items of a list. -/
def writeItems (level : Nat) (out : String) : List Document → String
  | [] => out
  | item :: items => writeItems level (write level (out ++ "," ++ line level) item) items
/-- Appends the further fields of a record. -/
def writeFields (level : Nat) (out : String) : List (String × Document) → String
  | [] => out
  | (key, value) :: fields =>
      writeFields level (write level (out ++ "," ++ line level ++ quote key ++ ": ") value) fields
end

def render (d : Document) : String :=
  write 0 "" d

end Document

end ScriptSyntax
