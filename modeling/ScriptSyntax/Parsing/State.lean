import ScriptSyntax.Diagnostic.Basic
import ScriptSyntax.Parsing.Event
import ScriptSyntax.Parsing.Form
import ScriptSyntax.Token.Basic
import ScriptSyntax.Tree.Node

/-!
The state of a parse.  A parse looks at the tokens that are left, never back: what it needs of the
tokens behind it is where the last one ended.
-/

namespace ScriptSyntax

/-- How deep expressions and blocks may nest. -/
def nestingLimit : Nat := 256

/-- The choices that a parse leaves open. -/
structure Options where
  /-- Warn about comments where an expression could stand. -/
  warnComments : Bool := true
deriving DecidableEq, Repr

/-- A token that a parse looks at, and the comment directly before it.  A comment ends its line, so
there is at most one. -/
structure Slot where
  token : Token
  commentBefore : Option Span
deriving DecidableEq, Repr

namespace Slot

def kind (slot : Slot) : TokenKind := slot.token.kind

/-- The tokens of a sequence without its trivia, after those in `done`, which are kept in reverse;
`pending` is the comment met last that no token has claimed. -/
def collect (done : List Slot) (pending : Option Span) : List Token → List Slot
  | [] => done.reverse
  | token :: tokens =>
      match token.kind with
      | .whitespace => collect done pending tokens
      | .comment => collect done (some token.span) tokens
      | _ => collect (⟨token, pending⟩ :: done) none tokens

/-- The tokens of a sequence without its trivia. -/
def ofTokens (tokens : List Token) : List Slot :=
  collect [] none tokens

end Slot

/-- A bracket that the parse is inside of. -/
structure Delimiter where
  /-- The token that closes it. -/
  closer : TokenKind
  /-- It holds arguments, elements or entries, and not statements or names. -/
  expressionList : Bool
deriving DecidableEq, Repr

/-- A place in the sequence of tokens. -/
structure Mark where
  /-- The tokens from the place on, without the end of the file. -/
  slots : List Slot
  /-- The number of tokens before the place. -/
  index : Nat
deriving DecidableEq, Repr

/-- The state of a parse. -/
structure State where
  /-- The tokens left, without the end of the file. -/
  rest : List Slot
  /-- Where the end of the file is. -/
  endOfFile : Position
  /-- The comment directly before the end of the file. -/
  commentAtEnd : Option Span
  /-- Where the first token begins. -/
  start : Position
  /-- The number of tokens consumed. -/
  consumed : Nat
  /-- Where the last token consumed ends; the start if there is none. -/
  previousEnd : Position
  /-- The brackets that are open, the innermost first. -/
  delimiters : List Delimiter
  /-- The levels of nesting that the parse is inside of. -/
  depth : Nat
  /-- The most levels that the parse has entered at once so far. -/
  deepest : Nat
  /-- The diagnostics so far, the latest first. -/
  reports : List Diagnostic
  /-- The events so far, the latest first. -/
  journal : List Event
  options : Options
deriving DecidableEq, Repr

namespace State

/-- The state before the first of `tokens`, which begin at `start`.  An end of the file is the last of
the tokens if they have one; otherwise it is where they end. -/
def ofTokens (options : Options) (start : Position) (tokens : List Token) : State :=
  let slots := Slot.ofTokens tokens
  let (rest, endOfFile, commentAtEnd) := match slots.getLast? with
    | some last =>
        if last.kind = .endOfFile then (slots.dropLast, last.token.span.stop, last.commentBefore)
        else (slots, last.token.span.stop, none)
    | none => ([], start, none)
  { rest, endOfFile, commentAtEnd, start, consumed := 0, previousEnd := start, delimiters := [],
    depth := 0, deepest := 0, reports := [], journal := [], options }

/-- The tokens left and the end of the file. -/
def slots (s : State) : List Slot :=
  s.rest ++ [⟨Token.endOfFile s.endOfFile, s.commentAtEnd⟩]

/-- The next token and its comment; at the end, the end of the file. -/
def slot (s : State) : Slot :=
  s.rest.headD ⟨Token.endOfFile s.endOfFile, s.commentAtEnd⟩

def current (s : State) : Token := s.slot.token

def kind (s : State) : TokenKind := s.current.kind

/-- The token `n` places ahead, or the end of the file if there are fewer. -/
def peek (s : State) (n : Nat) : Token :=
  ((s.rest.drop n).headD ⟨Token.endOfFile s.endOfFile, s.commentAtEnd⟩).token

/-- The token `n` places ahead, for any number of places; a place that 64 bits cannot count is a
fault. -/
def peek? (s : State) (n : Nat) : Except Fault Token :=
  if sumLimit < s.consumed + n then .error .sumOverflow else .ok (s.peek n)

/-- The kind of the next token that is no newline. -/
def kindPastNewlines (s : State) : TokenKind :=
  match s.rest.find? (·.kind ≠ .newline) with
  | some slot => slot.kind
  | none => .endOfFile

/-- The place of the next token. -/
def mark (s : State) : Mark := ⟨s.rest, s.consumed⟩

/-- A statement may end before the next token. -/
def atStatementEnd (s : State) : Bool :=
  s.kind.isSeparator || s.kind = .rightBrace || s.kind = .endOfFile

/-- The next token can only close something: it ends a statement, the file or the innermost open
bracket.  An expression missing before it leaves a gap, and nothing has to be skipped. -/
def atBoundary (s : State) : Bool :=
  s.kind.isSeparator || s.kind = .endOfFile ||
    s.delimiters.head?.any fun delimiter => delimiter.closer = s.kind

/-- The span from `start` to the end of the last token consumed. -/
def spanFrom (s : State) (start : Position) : Span := ⟨start, s.previousEnd⟩

/-- The error for a next token that is not what the grammar asks for.  A lexical error speaks for
itself. -/
def unexpected (s : State) (expected : String) : SyntaxError :=
  let cause := match s.kind with
    | .error e => Cause.ofLexical e s.current.text
    | _ => .expectedToken expected s.current.display
  ⟨cause, s.current.span⟩

/-- The error for a statement that runs into the next one on its line. -/
def missingSeparator (s : State) : SyntaxError :=
  let cause := match s.kind with
    | .error e => Cause.ofLexical e s.current.text
    | _ => .missingSeparator s.current.display
  ⟨cause, s.current.span⟩

def nestingTooDeep (s : State) : SyntaxError :=
  ⟨.nestingTooDeep nestingLimit, s.current.span⟩

/-- The error for an expression that is missing before the next token. -/
def missingExpression (s : State) : SyntaxError :=
  ⟨.expectedExpression s.current.display, s.current.span⟩

def reported (s : State) (d : Diagnostic) : State :=
  { s with reports := d :: s.reports }

/-- The warning for a comment in a list of expressions. -/
def commentWarning (span : Span) : Diagnostic :=
  (Diagnostic.warning .grammatical "CommentInExpression"
    "comment inside an expression list is treated as trivia" span).withNote
    "comments are never expressions; move it outside the list"

/-- Warns about the comment before a token, if there is one and the innermost open bracket holds
expressions. -/
def noted (s : State) (slot : Slot) : State :=
  match slot.commentBefore with
  | some span =>
      if s.options.warnComments && s.delimiters.head?.any (·.expressionList) then
        s.reported (commentWarning span)
      else s
  | none => s

/-- The state past the next token.  The end of the file is never passed. -/
def advanced (s : State) : State :=
  match s.rest with
  | [] => s
  | slot :: rest =>
      { s.noted slot with
        rest
        consumed := s.consumed + 1
        previousEnd := slot.token.span.stop }

def diagnostics (s : State) : List Diagnostic :=
  Diagnostic.inSourceOrder s.reports.reverse

/-- The events in the order in which they happened. -/
def events (s : State) : List Event := s.journal.reverse

end State

end ScriptSyntax
