/-!
The kinds of token of a script.  Keywords and operators are families of their own, each with the text
that stands for it in a script and the name that it has in listings.
-/

namespace ScriptSyntax

/-- The words that a script reserves for its statements and operators. -/
inductive Keyword where
  | fnKw | macroKw | structKw | returnKw | useKw | asKw | fromKw | forKw | ifKw | elifKw | elseKw
  | asyncKw | awaitKw | andKw | orKw | notKw | inKw
deriving DecidableEq, Repr

namespace Keyword

def all : List Keyword :=
  [.fnKw, .macroKw, .structKw, .returnKw, .useKw, .asKw, .fromKw, .forKw, .ifKw, .elifKw, .elseKw,
    .asyncKw, .awaitKw, .andKw, .orKw, .notKw, .inKw]

theorem mem_all (k : Keyword) : k ∈ all := by cases k <;> decide

def spelling : Keyword → String
  | fnKw => "fn"
  | macroKw => "macro"
  | structKw => "struct"
  | returnKw => "return"
  | useKw => "use"
  | asKw => "as"
  | fromKw => "from"
  | forKw => "for"
  | ifKw => "if"
  | elifKw => "elif"
  | elseKw => "else"
  | asyncKw => "async"
  | awaitKw => "await"
  | andKw => "and"
  | orKw => "or"
  | notKw => "not"
  | inKw => "in"

def name : Keyword → String
  | fnKw => "Fn"
  | macroKw => "Macro"
  | structKw => "Struct"
  | returnKw => "Return"
  | useKw => "Use"
  | asKw => "As"
  | fromKw => "From"
  | forKw => "For"
  | ifKw => "If"
  | elifKw => "Elif"
  | elseKw => "Else"
  | asyncKw => "Async"
  | awaitKw => "Await"
  | andKw => "And"
  | orKw => "Or"
  | notKw => "Not"
  | inKw => "In"

end Keyword

/-- The symbols that compare, combine or assign values, and the sigils of macro calls. -/
inductive Operator where
  | plus | minus | star | slash | percent
  | equalEqual | notEqual | greater | less | greaterEqual | lessEqual
  | andAnd | orOr
  | assign | plusAssign | minusAssign | starAssign | slashAssign | colonAssign
  | dotDot | bang | dollar | atSign
deriving DecidableEq, Repr

namespace Operator

def all : List Operator :=
  [.plus, .minus, .star, .slash, .percent, .equalEqual, .notEqual, .greater, .less, .greaterEqual,
    .lessEqual, .andAnd, .orOr, .assign, .plusAssign, .minusAssign, .starAssign, .slashAssign,
    .colonAssign, .dotDot, .bang, .dollar, .atSign]

theorem mem_all (o : Operator) : o ∈ all := by cases o <;> decide

def name : Operator → String
  | plus => "Plus"
  | minus => "Minus"
  | star => "Star"
  | slash => "Slash"
  | percent => "Percent"
  | equalEqual => "EqualEqual"
  | notEqual => "NotEqual"
  | greater => "Greater"
  | less => "Less"
  | greaterEqual => "GreaterEqual"
  | lessEqual => "LessEqual"
  | andAnd => "AndAnd"
  | orOr => "OrOr"
  | assign => "Assign"
  | plusAssign => "PlusAssign"
  | minusAssign => "MinusAssign"
  | starAssign => "StarAssign"
  | slashAssign => "SlashAssign"
  | colonAssign => "ColonAssign"
  | dotDot => "DotDot"
  | bang => "Bang"
  | dollar => "Dollar"
  | atSign => "At"

end Operator

/-- Why a stretch of text is no token. -/
inductive LexicalError where
  /-- A string has no closing quote on its line. -/
  | unterminatedString
  /-- No token starts with the character. -/
  | illegalCharacter
deriving DecidableEq, Repr

namespace LexicalError

def all : List LexicalError := [.unterminatedString, .illegalCharacter]

theorem mem_all (e : LexicalError) : e ∈ all := by cases e <;> decide

def name : LexicalError → String
  | unterminatedString => "UnterminatedString"
  | illegalCharacter => "IllegalCharacter"

end LexicalError

/-- The kinds of token. -/
inductive TokenKind where
  | endOfFile
  | identifier | number | string | boolean
  | keyword (k : Keyword)
  | operator (o : Operator)
  | newline | semicolon
  | comment | whitespace
  | leftBrace | rightBrace | leftBracket | rightBracket | leftParen | rightParen
  | comma | colon | dot
  | error (e : LexicalError)
deriving DecidableEq, Repr

namespace TokenKind

def all : List TokenKind :=
  [.endOfFile, .identifier, .number, .string, .boolean] ++ Keyword.all.map .keyword ++
    Operator.all.map .operator ++
    [.newline, .semicolon, .comment, .whitespace, .leftBrace, .rightBrace, .leftBracket, .rightBracket,
      .leftParen, .rightParen, .comma, .colon, .dot] ++
    LexicalError.all.map .error

theorem mem_all (k : TokenKind) : k ∈ all := by
  cases k <;> simp [all, Keyword.mem_all, Operator.mem_all, LexicalError.mem_all]

def name : TokenKind → String
  | endOfFile => "EOF"
  | identifier => "Identifier"
  | number => "Number"
  | string => "String"
  | boolean => "Boolean"
  | keyword k => "Keyword(" ++ k.name ++ ")"
  | operator o => "Operator(" ++ o.name ++ ")"
  | newline => "Newline"
  | semicolon => "Semicolon"
  | comment => "Comment"
  | whitespace => "Whitespace"
  | leftBrace => "LBrace"
  | rightBrace => "RBrace"
  | leftBracket => "LBracket"
  | rightBracket => "RBracket"
  | leftParen => "LParen"
  | rightParen => "RParen"
  | comma => "Comma"
  | colon => "Colon"
  | dot => "Dot"
  | error e => "Error(" ++ e.name ++ ")"

/-- How a message says that a token of the kind was expected. -/
def description : TokenKind → String
  | endOfFile => "end of file"
  | identifier => "an identifier"
  | number => "a number"
  | string => "a string"
  | boolean => "a boolean"
  | keyword k => "`" ++ k.spelling ++ "`"
  | operator o => "operator " ++ o.name
  | newline | semicolon => "a newline or `;`"
  | comment => "a comment"
  | whitespace => "whitespace"
  | leftBrace => "`\x7b`"
  | rightBrace => "`\x7d`"
  | leftBracket => "`[`"
  | rightBracket => "`]`"
  | leftParen => "`(`"
  | rightParen => "`)`"
  | comma => "`,`"
  | colon => "`:`"
  | dot => "`.`"
  | error _ => "a valid token"

/-- A comment or a run of blanks, which a parser does not look at. -/
def isTrivia : TokenKind → Bool
  | comment | whitespace => true
  | _ => false

/-- A token that ends a statement. -/
def isSeparator : TokenKind → Bool
  | newline | semicolon => true
  | _ => false

end TokenKind

end ScriptSyntax
