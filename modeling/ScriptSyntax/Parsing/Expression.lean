import ScriptSyntax.Parsing.Sequence

/-!
The forms of expressions.  A form reads the expressions and blocks inside it through `Inner`, so that
each form is a step of its own and the recursion between them is in one place.
-/

namespace ScriptSyntax

/-- The readers of what stands inside a form. -/
structure Inner where
  /-- An expression whose operators all bind tighter than the given power. -/
  expression : BindingPower → Parser Node
  /-- A block of statements between braces. -/
  block : Parser Node

namespace Parser

/-- Stands in for an expression that is missing.  Before a token that can only close something the gap
becomes an empty node; anywhere else the statement is given up. -/
def missingExpression : Parser Node := do
  let s ← get
  if s.atBoundary then
    let gap := Diagnostic.ofError s.missingExpression
    reportDiagnostic
      (if s.slot.commentBefore.isSome then gap.withNote "comments are not expressions" else gap)
    return Node.error (Span.empty s.current.span.start) []
  else
    failWith (·.missingExpression)

/-- The literal that a token of the kind is. -/
def literalKind? : TokenKind → Option NodeKind
  | .number => some .numberLit
  | .string => some .stringLit
  | .boolean => some .boolLit
  | _ => none

/-- Reads a number, a string or a boolean. -/
def literal : Parser Node := do
  match literalKind? (← get).kind with
  | some kind =>
      let token ← advance
      return Node.leaf kind token.span token.text
  | none => failWith (·.unexpected "a literal")

def identifier : Parser Node := do
  let token ← expect .identifier
  return Node.leaf .identifier token.span token.text

/-- Reads the arguments of a call, with the span of their parentheses. -/
def arguments (inner : Inner) : Parser (List Node × Span) :=
  bracketed .leftParen .rightParen true (inner.expression .lowest)

/-- Reads the names of parameters between parentheses. -/
def parameterList : Parser Node := do
  let (names, span) ← bracketed .leftParen .rightParen false identifier
  return Node.branch .parameterList span names

/-- Reads an identifier, or a call if an opening parenthesis follows it. -/
def nameOrCall (inner : Inner) : Parser Node := do
  let name ← identifier
  if (← get).kind = .leftParen then
    let (values, span) ← arguments inner
    return Node.branch .functionCall (name.span.through span) (name :: values)
  else
    return name

/-- Reads a call of a macro: a sigil, a name and arguments. -/
def macroCall (inner : Inner) : Parser Node := do
  let sigil ← advance
  let name ← identifier
  if (← get).kind = .leftParen then
    let (values, span) ← arguments inner
    return ⟨.macroCall, name :: values, sigil.span.through span, some sigil.text⟩
  else
    failWith (·.unexpected "`(` after macro name")

def array (inner : Inner) : Parser Node := do
  let (elements, span) ← bracketed .leftBracket .rightBracket true (inner.expression .lowest)
  return Node.branch .arrayLit span elements

/-- Reads a string, a colon and a value. -/
def keyValuePair (inner : Inner) : Parser Node := do
  if (← get).kind = .string then
    let key ← literal
    let _ ← expect .colon
    skipNewlines
    let value ← inner.expression .lowest
    return Node.branch .keyValuePair (key.span.through value.span) [key, value]
  else
    failWith (·.unexpected "a string key")

def object (inner : Inner) : Parser Node := do
  let (entries, span) ← bracketed .leftBrace .rightBrace true (keyValuePair inner)
  return Node.branch .objectLit span entries

def lambda (inner : Inner) : Parser Node := do
  let opening ← advance
  let parameters ← parameterList
  let body ← inner.block
  return Node.branch .lambda (opening.span.through body.span) [parameters, body]

def awaitExpr (inner : Inner) : Parser Node := do
  let opening ← advance
  let operand ← inner.expression .unary
  return Node.branch .awaitExpr (opening.span.through operand.span) [operand]

def bang (inner : Inner) : Parser Node := do
  let operator ← advance
  let operand ← inner.expression .unary
  return ⟨.unaryBang, [operand], operator.span.through operand.span, some operator.text⟩

/-- Lets a token that is a lexical error stand for the operand in whose place it is. -/
def lexicalError : Parser Node := do
  let token ← advance
  match token.kind with
  | .error e => report ⟨Cause.ofLexical e token.text, token.span⟩
  | _ => pure ()
  return Node.error token.span []

/-- Reads an operand of the given form. -/
def operand (inner : Inner) : OperandForm → Parser Node
  | .literal => literal
  | .name => nameOrCall inner
  | .array => array inner
  | .object => object inner
  | .lambda => lambda inner
  | .macroCall => macroCall inner
  | .awaitExpr => awaitExpr inner
  | .bang => bang inner
  | .lexicalError => lexicalError

/-- Reads an operator and its right operand, which holds operators that bind tighter than `power`. -/
def rightOperand (inner : Inner) (power : BindingPower) : Parser (Token × Node) := do
  let operator ← advance
  skipNewlines
  let right ← inner.expression power
  return (operator, right)

/-- Reads the rest of an operation that groups to the left. -/
def binary (inner : Inner) (power : BindingPower) (left : Node) : Parser Node := do
  let (operator, right) ← rightOperand inner power
  return ⟨.binaryExpr, [left, right], left.span.through right.span, some operator.text⟩

/-- Reads the rest of a membership test, which groups to the left. -/
def membership (inner : Inner) (power : BindingPower) (left : Node) : Parser Node := do
  let (_, right) ← rightOperand inner power
  return Node.branch .inExpr (left.span.through right.span) [left, right]

/-- Reads the rest of a range, which groups to the right: `a..b..c` is `a..(b..c)`. -/
def range (inner : Inner) (power : BindingPower) (left : Node) : Parser Node := do
  let (_, right) ← rightOperand inner power.weaker
  return Node.branch .rangeExpr (left.span.through right.span) [left, right]

/-- Reads the member that is taken of an object. -/
def member (inner : Inner) (power : BindingPower) (left : Node) : Parser Node := do
  let (_, right) ← rightOperand inner power
  return Node.branch .memberAccess (left.span.through right.span) [left, right]

def subscript (inner : Inner) (left : Node) : Parser Node := do
  let _ ← advance
  delimited .rightBracket true do
    skipNewlines
    let index ← inner.expression .lowest
    skipNewlines
    let closing ← expect .rightBracket
    return Node.branch .subscript (left.span.through closing.span) [left, index]

/-- Reads what continues the operand `left` in the given form. -/
def continuation (inner : Inner) (power : BindingPower) (left : Node) : OperatorForm → Parser Node
  | .binary => binary inner power left
  | .membership => membership inner power left
  | .range => range inner power left
  | .member => member inner power left
  | .subscript => subscript inner left

end Parser

end ScriptSyntax
