import ScriptSyntax.Position
import ScriptSyntax.Text.Quoted
import ScriptSyntax.Token.Kind
import ScriptSyntax.Token.Reserved

/-!
What can be wrong with a script.  An error is a cause at a span; the cause settles the name, the
category, the message and the tip.
-/

namespace ScriptSyntax

/-- The layer of the language that an error breaks. -/
inductive Category where
  /-- Some characters are no token. -/
  | lexical
  /-- The tokens are in no form of the grammar. -/
  | grammatical
  /-- The forms are in an order or a place they may not have. -/
  | structural
deriving DecidableEq, Repr

namespace Category

def all : List Category := [.lexical, .grammatical, .structural]

def name : Category → String
  | lexical => "Lexical"
  | grammatical => "Syntax"
  | structural => "Structural"

end Category

/-- The causes of an error, each with the pieces of source that its message quotes. -/
inductive Cause where
  | unterminatedString (token : String)
  | illegalCharacter (token : String)
  | expectedToken (expected found : String)
  | expectedExpression (found : String)
  | missingSeparator (found : String)
  | unterminatedBlock (openedAt : Nat)
  | unknownScheme (scheme : String)
  | nestingTooDeep (limit : Nat)
  | fieldAfterMethod (field : String)
  | duplicateElse
  | elifAfterElse
  | invalidTarget (target : String)
deriving DecidableEq, Repr

namespace Cause

/-- The cause that a token which is a lexical error stands for. -/
def ofLexical (e : LexicalError) (token : String) : Cause :=
  match e with
  | .unterminatedString => unterminatedString token
  | .illegalCharacter => illegalCharacter token

def category : Cause → Category
  | unterminatedString _ | illegalCharacter _ => .lexical
  | expectedToken _ _ | expectedExpression _ | missingSeparator _ | unterminatedBlock _
  | unknownScheme _ | nestingTooDeep _ => .grammatical
  | fieldAfterMethod _ | duplicateElse | elifAfterElse | invalidTarget _ => .structural

def name : Cause → String
  | unterminatedString _ => "UnterminatedString"
  | illegalCharacter _ => "IllegalCharacter"
  | expectedToken _ _ => "ExpectedToken"
  | expectedExpression _ => "ExpectedExpression"
  | missingSeparator _ => "MissingSeparator"
  | unterminatedBlock _ => "UnterminatedBlock"
  | unknownScheme _ => "InvalidImportPrefix"
  | nestingTooDeep _ => "NestingTooDeep"
  | fieldAfterMethod _ => "FieldAfterMethod"
  | duplicateElse => "DuplicateElse"
  | elifAfterElse => "ElifAfterElse"
  | invalidTarget _ => "InvalidAssignmentTarget"

/-- The message of the cause, which quotes source text. -/
def message : Cause → String
  | unterminatedString token => "unterminated string literal: " ++ Text.quoted token
  | illegalCharacter token => "illegal character: " ++ Text.quoted token
  | expectedToken expected found => "expected " ++ expected ++ ", found " ++ Text.quoted found
  | expectedExpression found => "expected expression, found " ++ Text.quoted found
  | missingSeparator found => "expected statement separator, found " ++ Text.quoted found
  | unterminatedBlock openedAt => "unterminated block opened at line " ++ toString openedAt
  | unknownScheme scheme => "invalid import prefix " ++ Text.quoted scheme
  | nestingTooDeep limit => "nesting deeper than " ++ toString limit ++ " levels"
  | fieldAfterMethod field => "struct field " ++ Text.quoted field ++ " declared after a method"
  | duplicateElse => "multiple else clauses"
  | elifAfterElse => "elif clause after else"
  | invalidTarget target => "invalid assignment target: " ++ target

/-- What the writer of the script can do about the cause. -/
def tip? : Cause → Option String
  | unterminatedString _ =>
      some "Strings must be closed with a matching quote on the same line"
  | illegalCharacter _ => none
  | expectedToken expected found => some ("Expected " ++ expected ++ ", found `" ++ found ++ "`")
  | expectedExpression found => some ("Expected an expression, found `" ++ found ++ "`")
  | missingSeparator found =>
      some ("Statements end with a newline or `;`, found `" ++ found ++ "`")
  | unterminatedBlock openedAt =>
      some ("Block opened at line " ++ toString openedAt ++ " is never closed with `\x7d`")
  | unknownScheme scheme =>
      some ("Unknown import prefix `" ++ scheme ++ "`, expected one of " ++
        ", ".intercalate importSchemes)
  | nestingTooDeep _ =>
      some "Split the expression into smaller pieces with intermediate variables"
  | fieldAfterMethod field =>
      some ("Move field `" ++ field ++ "` above the first method of the struct")
  | duplicateElse => some "An `if` statement takes at most one `else`"
  | elifAfterElse => some "`elif` clauses must come before `else`"
  | invalidTarget target =>
      some ("Only identifiers and member accesses can be assigned to, found " ++ target)

end Cause

/-- A cause at the stretch of source that shows it. -/
structure SyntaxError where
  cause : Cause
  span : Span
deriving DecidableEq, Repr

end ScriptSyntax
