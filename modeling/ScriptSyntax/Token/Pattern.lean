import ScriptSyntax.Token.Scan

/-!
The table of patterns that the tokens are given by.  A pattern is tried at the start of the remaining text and
takes the first way to match it, in the order that the alternatives are written in and with as many rounds as
there are; of the table the first row that matches is taken.
-/

namespace ScriptSyntax

/-- The characters in some of the ranges, or those in none of them. -/
structure CharClass where
  ranges : List (Char × Char)
  negated : Bool
deriving DecidableEq, Repr

namespace CharClass

def contains (cls : CharClass) (c : Char) : Bool :=
  cls.ranges.any (fun range => range.1 ≤ c ∧ c ≤ range.2) != cls.negated

/-- The characters of a list. -/
def of (chars : List Char) : CharClass := ⟨chars.map fun c => (c, c), false⟩

/-- The characters that are not in a list. -/
def except (chars : List Char) : CharClass := ⟨chars.map fun c => (c, c), true⟩

def letter : CharClass := ⟨[('a', 'z'), ('A', 'Z')], false⟩

def digit : CharClass := ⟨[('0', '9')], false⟩

def wordTail : CharClass := ⟨[('a', 'z'), ('A', 'Z'), ('0', '9'), ('_', '_')], false⟩

end CharClass

/-- A regular expression whose choices are ordered. -/
inductive Pattern where
  | empty
  | one (cls : CharClass)
  | seq (first second : Pattern)
  | either (first second : Pattern)
  | many (item : Pattern)
deriving DecidableEq, Repr

namespace Pattern

/-- One round of an item after the other, at most as many as the budget; the more rounds the earlier. -/
def rounds (item : List Char → List Nat) : Nat → List Char → List Nat
  | 0, _ => [0]
  | budget + 1, text =>
      ((item text).filter (0 < ·)).flatMap (fun n => (rounds item budget (text.drop n)).map (n + ·)) ++ [0]

/-- The lengths of the pieces at the start of a text that the pattern matches, in the order that they are tried.
Each round of an item takes a character at least, so the text bounds their number. -/
def lengths : Pattern → List Char → List Nat
  | empty, _ => [0]
  | one cls, text => if text.head?.any cls.contains then [1] else []
  | seq first second, text =>
      (first.lengths text).flatMap fun n => (second.lengths (text.drop n)).map (n + ·)
  | either first second, text => first.lengths text ++ second.lengths text
  | many item, text => rounds item.lengths text.length text

/-- A character of the class, and as many more as there are. -/
def plus (cls : CharClass) : Pattern := .seq (.one cls) (.many (.one cls))

/-- The item once or not at all, rather once. -/
def perhaps (item : Pattern) : Pattern := .either item .empty

def exactly : List Char → Pattern
  | [] => .empty
  | c :: rest => .seq (.one (.of [c])) (exactly rest)

/-- A character of a string, which is no quote and no line break, or a backslash and the character that it
escapes. -/
def quotedItem (quote : Char) : Pattern :=
  .either (.one (.except [quote, '\\', '\n'])) (.seq (.one (.of ['\\'])) (.one (.except ['\n'])))

/-- What stands between the quotes of a string. -/
def quoted (quote : Char) : Pattern := .many (quotedItem quote)

end Pattern

/-- A row of the table. -/
inductive Rule where
  | spacing
  | comment
  | word
  | number
  | string (quote : Char)
  | unterminated (quote : Char)
  | symbol (text : List Char) (kind : TokenKind)
deriving DecidableEq, Repr

namespace Rule

def pattern : Rule → Pattern
  | spacing => .plus (.of [' ', '\t', '\r'])
  | comment => .seq (.one (.of ['/'])) (.seq (.one (.of ['/'])) (.many (.one (.except ['\n']))))
  | word => .seq (.one .letter) (.many (.one .wordTail))
  | number => .seq (.plus .digit) (.perhaps (.seq (.one (.of ['.'])) (.plus .digit)))
  | string quote => .seq (.one (.of [quote])) (.seq (.quoted quote) (.one (.of [quote])))
  | unterminated quote => .seq (.one (.of [quote])) (.quoted quote)
  | symbol text _ => .exactly text

/-- The kind of a token that the row gives, by its text. -/
def kind (rule : Rule) (text : List Char) : TokenKind :=
  match rule with
  | spacing => .whitespace
  | comment => .comment
  | word => Scan.wordKind text
  | number => .number
  | string _ => .string
  | unterminated _ => .error .unterminatedString
  | symbol _ kind => kind

/-- What the row reads at the start of a text.  An empty match does not count. -/
def read? (rule : Rule) (text : List Char) : Option (TokenKind × Nat) :=
  ((rule.pattern.lengths text).head?.filter (0 < ·)).map fun n => (rule.kind (text.take n), n)

/-- The rows for blanks, comments, words, numbers and strings. -/
def classes : List Rule :=
  [.spacing, .symbol ['\n'] .newline, .comment, .word, .number, .string '"', .string '\'',
    .unterminated '"', .unterminated '\'']

def pairs : List Rule :=
  [.symbol ['=', '='] (.operator .equalEqual), .symbol ['!', '='] (.operator .notEqual),
    .symbol ['>', '='] (.operator .greaterEqual), .symbol ['<', '='] (.operator .lessEqual),
    .symbol ['&', '&'] (.operator .andAnd), .symbol ['|', '|'] (.operator .orOr),
    .symbol ['+', '='] (.operator .plusAssign), .symbol ['-', '='] (.operator .minusAssign),
    .symbol ['*', '='] (.operator .starAssign), .symbol ['/', '='] (.operator .slashAssign),
    .symbol [':', '='] (.operator .colonAssign), .symbol ['.', '.'] (.operator .dotDot)]

def singles : List Rule :=
  [.symbol ['+'] (.operator .plus), .symbol ['-'] (.operator .minus), .symbol ['*'] (.operator .star),
    .symbol ['/'] (.operator .slash), .symbol ['%'] (.operator .percent), .symbol ['>'] (.operator .greater),
    .symbol ['<'] (.operator .less), .symbol ['='] (.operator .assign), .symbol ['!'] (.operator .bang),
    .symbol ['$'] (.operator .dollar), .symbol ['@'] (.operator .atSign), .symbol ['\x7b'] .leftBrace,
    .symbol ['\x7d'] .rightBrace, .symbol ['['] .leftBracket, .symbol [']'] .rightBracket,
    .symbol ['('] .leftParen, .symbol [')'] .rightParen, .symbol [','] .comma, .symbol [':'] .colon,
    .symbol ['.'] .dot, .symbol [';'] .semicolon]

/-- The table, in the order that its rows are tried. -/
def table : List Rule := classes ++ pairs ++ singles

/-- What the first row that matches reads, or else one illegal character. -/
def firstMatch (text : List Char) : TokenKind × Nat :=
  (table.findSome? (·.read? text)).getD (.error .illegalCharacter, 1)

end Rule

end ScriptSyntax
