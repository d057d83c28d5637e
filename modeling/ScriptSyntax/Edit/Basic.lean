import ScriptSyntax.Text.Slice

/-!
Edits of a source text: the replacement of some of its bytes by another text.
-/

namespace ScriptSyntax

/-- The replacement of `oldLength` bytes from `start` on by `newText`. -/
structure Edit where
  start : Nat
  oldLength : Nat
  newText : String
  /-- The number of bytes that the new text is said to have. -/
  newLength : Nat := newText.utf8ByteSize
deriving DecidableEq, Repr

/-- Why an edit cannot be made. -/
inductive EditError where
  /-- The edit needs a place that the text or its tree does not have. -/
  | fault (f : Fault)
  /-- The bytes to replace are not all in the text. -/
  | outOfBounds (start stop length : Nat)
  /-- The bytes to replace begin or end inside a character. -/
  | offBoundary (offset : Nat)
  /-- The new text does not have the number of bytes that it is said to have. -/
  | lengthMismatch (declared actual : Nat)
deriving DecidableEq, Repr

namespace EditError

def message : EditError → String
  | fault _ => "edit offset is in no source"
  | outOfBounds start stop length =>
      "edit range " ++ toString start ++ ".." ++ toString stop ++ " is outside of the " ++
        toString length ++ " byte source"
  | offBoundary offset => "edit offset " ++ toString offset ++ " is not on a character boundary"
  | lengthMismatch declared actual =>
      "edit declares " ++ toString declared ++ " new bytes but carries " ++ toString actual

end EditError

namespace Edit

/-- The end of the bytes to replace. -/
def stop (e : Edit) : Nat := e.start + e.oldLength

/-- The text with the edit made.  The bounds of the edit are looked at first, then the boundary at its
start, the boundary at its end and the length of the new text. -/
def apply (e : Edit) (source : String) : Except EditError String :=
  if sumLimit < e.stop then .error (.fault .sumOverflow)
  else if source.utf8ByteSize < e.stop then
    .error (.outOfBounds e.start e.stop source.utf8ByteSize)
  else
    match Text.splitAtByte? source.toList e.start, Text.splitAtByte? source.toList e.stop with
    | .error _, _ => .error (.offBoundary e.start)
    | .ok _, .error _ => .error (.offBoundary e.stop)
    | .ok (before, _), .ok (_, behind) =>
        if e.newText.utf8ByteSize ≠ e.newLength then
          .error (.lengthMismatch e.newLength e.newText.utf8ByteSize)
        else .ok (String.ofList before ++ e.newText ++ String.ofList behind)

end Edit

end ScriptSyntax
