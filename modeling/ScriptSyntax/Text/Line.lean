import ScriptSyntax.Text.Slice

/-!
The lines of a text and the line that a byte offset falls on.  A line includes the newline that ends it;
the text after the last newline is a line too, even when it is empty, so an offset at the end of the
text has a line.  The lines put together are the text: `flatten_lines`.
-/

namespace ScriptSyntax.Text

/-- The lines of a text, after those in `done` and the characters in `line`, which are both kept in
reverse. -/
def linesAfter (done : List (List Char)) (line : List Char) : List Char → List (List Char)
  | [] => (line.reverse :: done).reverse
  | c :: text =>
      if c = '\n' then linesAfter ((c :: line).reverse :: done) [] text
      else linesAfter done (c :: line) text

/-- The lines of a text, each with its newline; the last one has none. -/
def lines (text : List Char) : List (List Char) :=
  linesAfter [] [] text

theorem flatten_linesAfter (done : List (List Char)) (line text : List Char) :
    (linesAfter done line text).flatten = done.reverse.flatten ++ line.reverse ++ text := by
  induction text generalizing done line with
  | nil => simp [linesAfter]
  | cons c text ih =>
      unfold linesAfter
      split
      · simp [ih]
      · simp [ih]

theorem flatten_lines (text : List Char) : (lines text).flatten = text := by
  simp [lines, flatten_linesAfter]

/-- A line of a text and a place on it. -/
structure LineLocation where
  /-- The number of the line, from one. -/
  number : Nat
  /-- The characters of the line, with its newline if it has one. -/
  text : List Char
  /-- The bytes of the line before the place. -/
  offset : Nat
deriving DecidableEq, Repr

/-- Looks for a byte offset in lines that are numbered from `number` on.  The end of a line is on the
line after it, if there is one. -/
def locateFrom (number : Nat) (offset : Nat) : List (List Char) → Option LineLocation
  | [] => none
  | [line] => if offset ≤ byteLength line then some ⟨number, line, offset⟩ else none
  | line :: rest =>
      if offset < byteLength line then some ⟨number, line, offset⟩
      else locateFrom (number + 1) (offset - byteLength line) rest

/-- The line of a text that a byte offset falls on, if the text reaches that far. -/
def lineAt? (text : List Char) (offset : Nat) : Option LineLocation :=
  locateFrom 1 offset (lines text)

end ScriptSyntax.Text
