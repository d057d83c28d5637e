import ScriptSyntax.Parsing.State

/-!
The steps that every form of the grammar is read with.  A step either gives a value or fails with a
syntax error; in both cases the state it reached stands.
-/

namespace ScriptSyntax

/-- A step of a parse. -/
abbrev Parser := EStateM SyntaxError State

namespace Parser

def advance : Parser Token :=
  modifyGet fun s => (s.current, s.advanced)

/-- Fails with an error built from the state. -/
def failWith {α : Type} (error : State → SyntaxError) : Parser α := do
  throw (error (← get))

/-- Consumes the next token if it has the given kind, and fails with `error` if not. -/
def expectOr (kind : TokenKind) (error : State → SyntaxError) : Parser Token := do
  if (← get).kind = kind then advance else failWith error

/-- Consumes the next token, which must have the given kind. -/
def expect (kind : TokenKind) : Parser Token :=
  expectOr kind (·.unexpected kind.description)

/-- Consumes the tokens at the start of `slots`, which are those left, that satisfy `p`. -/
def skipWhile (p : TokenKind → Bool) : List Slot → Parser Unit
  | [] => pure ()
  | slot :: slots => do
      if p slot.kind then
        let _ ← advance
        skipWhile p slots

def skipNewlines : Parser Unit := do
  skipWhile (· = .newline) (← get).rest

/-- Consumes newlines and semicolons. -/
def skipSeparators : Parser Unit := do
  skipWhile TokenKind.isSeparator (← get).rest

def reportDiagnostic (d : Diagnostic) : Parser Unit :=
  modify (·.reported d)

def report (error : SyntaxError) : Parser Unit :=
  reportDiagnostic (.ofError error)

def log (event : Event) : Parser Unit :=
  modify fun s => { s with journal := event :: s.journal }

/-- Runs a step whose failure becomes a value. -/
def attempt {α : Type} (p : Parser α) : Parser (Except SyntaxError α) := fun s =>
  match p s with
  | .ok value s' => .ok (.ok value) s'
  | .error error s' => .ok (.error error) s'

/-- Runs a step and, whether it fails or not, applies `after` to the state it leaves. -/
def afterwards {α : Type} (p : Parser α) (after : State → State) : Parser α := fun s =>
  match p s with
  | .ok value s' => .ok value (after s')
  | .error error s' => .error error (after s')

/-- Runs a step inside a bracket that `closer` closes. -/
def delimited {α : Type} (closer : TokenKind) (expressionList : Bool) (p : Parser α) : Parser α := do
  modify fun s => { s with delimiters := ⟨closer, expressionList⟩ :: s.delimiters }
  afterwards p fun s => { s with delimiters := s.delimiters.tail }

/-- Enters one more level of nesting. -/
def enterNesting : Parser Unit := do
  if nestingLimit ≤ (← get).depth then failWith (·.nestingTooDeep)
  else modify fun s => { s with depth := s.depth + 1, deepest := max s.deepest (s.depth + 1) }

/-- Goes back to a level of nesting. -/
def leaveNesting (depth : Nat) : Parser Unit :=
  modify fun s => { s with depth }

/-- Runs a step and leaves the levels of nesting that it entered. -/
def nested {α : Type} (p : Parser α) : Parser α := do
  let depth := (← get).depth
  afterwards p fun s => { s with depth }

end Parser

end ScriptSyntax
