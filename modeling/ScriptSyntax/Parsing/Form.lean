import ScriptSyntax.Parsing.Power
import ScriptSyntax.Token.Kind

/-!
What a token begins.  The first token of a statement, of an operand or of the rest of an expression
settles which form of the grammar is read there.
-/

namespace ScriptSyntax

/-- The statements that a keyword begins. -/
inductive StatementForm where
  | functionDecl | macroDecl | structDecl | importStmt | forStmt | ifStmt | returnStmt
deriving DecidableEq, Repr

/-- The forms that an operand can have. -/
inductive OperandForm where
  /-- A number, a string or a boolean. -/
  | literal
  /-- An identifier, or a call of a function. -/
  | name
  | array | object | lambda | macroCall | awaitExpr
  /-- A negation, by word or by symbol. -/
  | bang
  /-- A token that is a lexical error. -/
  | lexicalError
deriving DecidableEq, Repr

/-- The forms that continue an operand to its right. -/
inductive OperatorForm where
  | binary | membership | range | member | subscript
deriving DecidableEq, Repr

namespace TokenKind

/-- The statement that a token of the kind begins; any other statement begins with an expression. -/
def statementForm? : TokenKind → Option StatementForm
  | keyword .fnKw | keyword .asyncKw => some .functionDecl
  | keyword .macroKw => some .macroDecl
  | keyword .structKw => some .structDecl
  | keyword .useKw => some .importStmt
  | keyword .forKw => some .forStmt
  | keyword .ifKw => some .ifStmt
  | keyword .returnKw => some .returnStmt
  | _ => none

/-- The operand that a token of the kind begins. -/
def operandForm? : TokenKind → Option OperandForm
  | number | string | boolean => some .literal
  | identifier => some .name
  | leftBracket => some .array
  | leftBrace => some .object
  | keyword .fnKw => some .lambda
  | operator .dollar | operator .atSign => some .macroCall
  | keyword .awaitKw => some .awaitExpr
  | operator .bang | keyword .notKw => some .bang
  | error _ => some .lexicalError
  | _ => none

/-- The continuation of an operand that a token of the kind begins, and how tightly it binds. -/
def operatorForm? : TokenKind → Option (BindingPower × OperatorForm)
  | keyword .inKw => some (.membership, .membership)
  | operator .dotDot => some (.range, .range)
  | operator .andAnd | operator .orOr | keyword .andKw | keyword .orKw => some (.logical, .binary)
  | operator .less | operator .lessEqual | operator .greater | operator .greaterEqual
  | operator .equalEqual | operator .notEqual => some (.relational, .binary)
  | operator .plus | operator .minus => some (.additive, .binary)
  | operator .star | operator .slash | operator .percent => some (.multiplicative, .binary)
  | dot => some (.member, .member)
  | leftBracket => some (.member, .subscript)
  | _ => none

/-- How tightly a token of the kind binds the operand before it. -/
def bindingPower? (k : TokenKind) : Option BindingPower :=
  k.operatorForm?.map (·.1)

/-- The closer that belongs to an opening bracket. -/
def closer? : TokenKind → Option TokenKind
  | leftBrace => some rightBrace
  | leftBracket => some rightBracket
  | leftParen => some rightParen
  | _ => none

def isCloser : TokenKind → Bool
  | rightBrace | rightBracket | rightParen => true
  | _ => false

end TokenKind

end ScriptSyntax
