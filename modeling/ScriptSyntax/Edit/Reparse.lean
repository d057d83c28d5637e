import ScriptSyntax.Edit.Basic
import ScriptSyntax.Parsing.Source
import ScriptSyntax.Token.Stream

/-!
The parse of an edited text that keeps what the edit cannot have changed.  A statement is kept when the
statement after it also ends before the edit, because a parse may look past the end of a statement for
the first token of the next one.  The parse starts again at that next statement.
-/

namespace ScriptSyntax

/-- The last index up to `index` where a statement that is no error stands, and zero if there is
none. -/
def lastWhole (statements : List Node) : Nat → Nat
  | 0 => 0
  | index + 1 =>
      if (statements[index + 1]?.any (·.isError)) then lastWhole statements index else index + 1

/-- The number of statements at the start of a tree that an edit at `editStart` leaves as they are. -/
def reusableStatements (root : Node) (editStart : Nat) : Nat :=
  let before := (root.children.takeWhile (·.span.stop.offset < editStart)).length
  lastWhole root.children (before - 1)

/-- Parses `source` from the statement `restart` of an earlier result on, and keeps the statements and
the diagnostics before it. -/
def parseFrom (source : String) (old : ParseResult) (kept : Nat) (restart : Position)
    (options : Options) : Except Fault ParseResult := do
  let (tokens, _) ← (TokenStream.startingAt source restart).drain
  let (rest, _) := parseTokens options restart tokens
  let early := old.diagnostics.filter (·.span.start.offset < restart.offset)
  let root := Node.branch .sourceFile ⟨Position.origin, rest.root.span.stop⟩
    (old.root.children.take kept ++ rest.root.children)
  return ⟨root, early ++ rest.diagnostics⟩

/-- Makes an edit and parses the new text with the help of the result for the old one.  The parse starts at
the first statement that is not kept, and a tree without that statement is a fault. -/
def reparse (source : String) (old : ParseResult) (edit : Edit) (options : Options) :
    Except EditError (String × ParseResult) := do
  let edited ← edit.apply source
  match reusableStatements old.root edit.start with
  | 0 => return (edited, parse edited options)
  | kept + 1 =>
      match old.root.children[kept + 1]? with
      | none => throw (.fault .missingChild)
      | some restart =>
          let result ← (parseFrom edited old (kept + 1) restart.span.start options).mapError .fault
          return (edited, result)

end ScriptSyntax
