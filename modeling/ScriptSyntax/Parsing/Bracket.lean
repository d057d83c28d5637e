import ScriptSyntax.Parsing.Form

/-!
The brackets that a run of tokens leaves open.
-/

namespace ScriptSyntax.Bracket

/-- The closers owed after one more token, the innermost first.  A closer goes back to the latest
bracket that it closes and abandons those opened inside; a closer that closes none is passed over. -/
def next (owed : List TokenKind) (kind : TokenKind) : List TokenKind :=
  match kind.closer? with
  | some closer => closer :: owed
  | none =>
      if kind.isCloser && owed.contains kind then (owed.dropWhile (· ≠ kind)).tail else owed

/-- The closers owed after a run of tokens, the innermost first. -/
def owed (kinds : List TokenKind) : List TokenKind :=
  kinds.foldl next []

end ScriptSyntax.Bracket
