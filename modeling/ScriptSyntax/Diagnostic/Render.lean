import ScriptSyntax.Diagnostic.Basic
import ScriptSyntax.Text.Blank
import ScriptSyntax.Text.Line

/-!
A diagnostic with the line of source it is about and a caret under the column where it starts.  The
line is shown without its indentation and without the blanks at its end.
-/

namespace ScriptSyntax.Diagnostic

/-- The largest number of columns that a text can be moved right to fill: the largest number of 16 bits. -/
def widthLimit : Nat := 65535

/-- A text moved right to fill `width` columns, the columns before it filled with `fill`. -/
def alignRight? (fill : Char) (width : Nat) (text : String) : Except Fault String :=
  if widthLimit < width then .error .tooWide
  else .ok ("".pushn fill (width - text.length) ++ text)

/-- A line of source as it is shown, with a place on it. -/
structure Excerpt where
  /-- The number of the line. -/
  number : Nat
  /-- The characters of the line that are shown. -/
  shown : List Char
  /-- The number of columns before the caret. -/
  caret : Nat
deriving DecidableEq, Repr

namespace Excerpt

/-- The excerpt for a place on a line.  A place in the indentation is shown at the first column. -/
def ofLocation? (place : Text.LineLocation) : Except Fault Excerpt := do
  let (before, _) ← Text.splitAtByte? place.text place.offset
  let indent := (place.text.takeWhile Text.isIndent).length
  return ⟨place.number, Text.trimEnd (place.text.dropWhile Text.isIndent), before.length - indent⟩

/-- The lines of the excerpt: an empty one, the line of source, and one with the caret. -/
def display? (e : Excerpt) : Except Fault String := do
  let number := toString e.number
  let bar ← alignRight? ' ' (number.length + 2) "|"
  let arrow ← alignRight? '-' (e.caret + 1) "^"
  return bar ++ "\n" ++ number ++ " | " ++ String.ofList e.shown ++ "\n" ++ bar ++ " " ++ arrow ++ "\n"

end Excerpt

/-- The diagnostic as it is shown for the lines of a source under the name `file`.  If the source is too
short to have the place, only the heading is shown. -/
def renderOn (d : Diagnostic) (lines : List (List Char)) (file : String) : Except Fault String := do
  let note := match d.notes with
    | note :: _ => " (" ++ note ++ ")"
    | [] => ""
  let heading := d.severity.label ++ ": " ++ d.name ++ note ++ "\n-> " ++ file ++ "\n"
  match Text.locateFrom 1 d.span.start.offset lines with
  | none => return heading
  | some place => return heading ++ (← (← Excerpt.ofLocation? place).display?)

/-- The diagnostic as it is shown for a source text under the name `file`. -/
def render (d : Diagnostic) (source file : String) : Except Fault String :=
  d.renderOn (Text.lines source.toList) file

end ScriptSyntax.Diagnostic
