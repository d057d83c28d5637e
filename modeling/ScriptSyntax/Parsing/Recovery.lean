import ScriptSyntax.Parsing.Bracket
import ScriptSyntax.Parsing.Step

/-!
Lists of statements and the recovery from a broken one.  A statement that fails leaves a node in its
place that spans all tokens up to the next place where a statement can end, so that the statements
after it are read as if it were whole.
-/

namespace ScriptSyntax.Parser

/-- Recovery ends before a token of the kind: before a separator outside all braces, and in a block
before the brace that closes it. -/
def isRecoveryPoint (inBlock : Bool) (owed : List TokenKind) (kind : TokenKind) : Bool :=
  !owed.contains .rightBrace && (kind.isSeparator || (inBlock && kind = .rightBrace))

/-- Consumes the tokens at the start of `slots`, which are those left, up to the next recovery point;
`owed` are the closers owed by the tokens before them. -/
def skipToRecoveryPoint (inBlock : Bool) (owed : List TokenKind) : List Slot → Parser Unit
  | [] => pure ()
  | slot :: slots => do
      if !isRecoveryPoint inBlock owed slot.kind then
        let _ ← advance
        skipToRecoveryPoint inBlock (Bracket.next owed slot.kind) slots

/-- Skips to the next place where a statement can end.  The node that stands for the broken statement
spans every token from `mark` on; it is empty if there is none. -/
def recover (mark : Mark) (inBlock : Bool) : Parser Node := do
  let s ← get
  let behind := mark.slots.take (s.consumed - mark.index)
  skipToRecoveryPoint inBlock (Bracket.owed (behind.map (·.kind))) s.rest
  let s ← get
  let start := match mark.slots with
    | slot :: _ => slot.token.span.start
    | [] => s.endOfFile
  let span := if mark.index < s.consumed then s.spanFrom start else Span.empty start
  log (.recovered span.stop (s.consumed - mark.index))
  return Node.error span []

/-- The list of statements ends before the next token: at the end of the file, and in a block before
the brace that closes it. -/
def atListEnd (inBlock : Bool) (s : State) : Bool :=
  s.kind = .endOfFile || (inBlock && s.kind = .rightBrace)

/-- Consumes the separators after a statement.  A missing one is reported, and what stands in its place
is skipped; none is needed at the end of the list. -/
def requireSeparator (inBlock : Bool) : Parser (Option Node) := do
  let s ← get
  if s.kind.isSeparator then
    skipSeparators
    return none
  else if atListEnd inBlock s then
    return none
  else
    report s.missingSeparator
    return some (← recover s.mark inBlock)

/-- Reads a statement and the separators after it, or recovers from a broken one. -/
def statementOrError (statement : Parser Node) (inBlock : Bool) : Parser (List Node) := do
  let mark := (← get).mark
  match ← attempt statement with
  | .ok node => return node :: (← requireSeparator inBlock).toList
  | .error error =>
      report error
      return [← recover mark inBlock]

/-- Reads further statements after those in `body`, which are kept in reverse, in at most as many
rounds as `budget` has members. -/
def statementsWithin (statement : Parser Node) (inBlock : Bool) (body : List Node) :
    List Slot → Parser (List Node)
  | [] => return body.reverse
  | _ :: budget => do
      skipSeparators
      if atListEnd inBlock (← get) then
        return body.reverse
      else
        let nodes ← statementOrError statement inBlock
        statementsWithin statement inBlock (nodes.reverse ++ body) budget

/-- Reads statements up to the end of the file, or in a block up to a closing brace.  Each round
consumes a token, so there are no more rounds than tokens left. -/
def statementList (statement : Parser Node) (inBlock : Bool) : Parser (List Node) := do
  statementsWithin statement inBlock [] (← get).rest

end ScriptSyntax.Parser
