import ScriptSyntax.Token.Basic
import ScriptSyntax.Token.Reserved

/-!
The first token of a text.  Each class of token has a function that counts the characters a token of
the class takes after its first one; `classify` chooses the class by the first character, with one
more character where two classes share it.
-/

namespace ScriptSyntax.Scan

/-- A blank within a line. -/
def isSpacing (c : Char) : Bool := c = ' ' || c = '\t' || c = '\r'

/-- A character of a word after its first. -/
def isWordTail (c : Char) : Bool := c.isAlphanum || c = '_'

/-- The number of characters at the start of a text that all satisfy `p`. -/
def runLength (p : Char → Bool) (text : List Char) : Nat := (text.takeWhile p).length

/-- A point and the digits after it; a point without digits is not part of a number. -/
def fractionLength : List Char → Nat
  | '.' :: rest =>
      match runLength Char.isDigit rest with
      | 0 => 0
      | digits + 1 => digits + 2
  | _ => 0

/-- The rest of a number that starts with a digit. -/
def numberLength (rest : List Char) : Nat :=
  let digits := runLength Char.isDigit rest
  digits + fractionLength (rest.drop digits)

/-- The characters of a string before its closing quote.  A backslash takes the next character with
it; a string does not reach past the end of its line. -/
def stringLength (quote : Char) : List Char → Nat
  | [] => 0
  | '\\' :: c :: rest => if c = '\n' then 0 else stringLength quote rest + 2
  | c :: rest => if c = quote ∨ c = '\\' ∨ c = '\n' then 0 else stringLength quote rest + 1

/-- The rest of a string that starts with `quote`, with the closing quote if there is one. -/
def string (quote : Char) (rest : List Char) : TokenKind × Nat :=
  let length := stringLength quote rest
  if (rest.drop length).head? = some quote then (.string, length + 1)
  else (.error .unterminatedString, length)

def wordKind (word : List Char) : TokenKind :=
  (TokenKind.reserved? (String.ofList word)).getD .identifier

def pairKind? : Char → Char → Option TokenKind
  | '=', '=' => some (.operator .equalEqual)
  | '!', '=' => some (.operator .notEqual)
  | '>', '=' => some (.operator .greaterEqual)
  | '<', '=' => some (.operator .lessEqual)
  | '&', '&' => some (.operator .andAnd)
  | '|', '|' => some (.operator .orOr)
  | '+', '=' => some (.operator .plusAssign)
  | '-', '=' => some (.operator .minusAssign)
  | '*', '=' => some (.operator .starAssign)
  | '/', '=' => some (.operator .slashAssign)
  | ':', '=' => some (.operator .colonAssign)
  | '.', '.' => some (.operator .dotDot)
  | _, _ => none

def singleKind? : Char → Option TokenKind
  | '+' => some (.operator .plus)
  | '-' => some (.operator .minus)
  | '*' => some (.operator .star)
  | '/' => some (.operator .slash)
  | '%' => some (.operator .percent)
  | '>' => some (.operator .greater)
  | '<' => some (.operator .less)
  | '=' => some (.operator .assign)
  | '!' => some (.operator .bang)
  | '$' => some (.operator .dollar)
  | '@' => some (.operator .atSign)
  | '\x7b' => some .leftBrace
  | '\x7d' => some .rightBrace
  | '[' => some .leftBracket
  | ']' => some .rightBracket
  | '(' => some .leftParen
  | ')' => some .rightParen
  | ',' => some .comma
  | ':' => some .colon
  | '.' => some .dot
  | ';' => some .semicolon
  | _ => none

/-- A symbol, the longer one where two fit, or else an illegal character. -/
def symbol (c : Char) (rest : List Char) : TokenKind × Nat :=
  match rest.head?.bind (pairKind? c) with
  | some kind => (kind, 1)
  | none => ((singleKind? c).getD (.error .illegalCharacter), 0)

/-- The kind of the first token of the text `c :: rest`, and the number of characters of `rest` that
belong to it. -/
def classify (c : Char) (rest : List Char) : TokenKind × Nat :=
  if isSpacing c then (.whitespace, runLength isSpacing rest)
  else if c = '\n' then (.newline, 0)
  else if c = '/' ∧ rest.head? = some '/' then (.comment, runLength (· ≠ '\n') rest)
  else if c.isAlpha then
    (wordKind (c :: rest.takeWhile isWordTail), runLength isWordTail rest)
  else if c.isDigit then (.number, numberLength rest)
  else if c = '"' ∨ c = '\'' then string c rest
  else symbol c rest

/-- The first token of the text `c :: rest`, which begins at `p`, and the number of characters of
`rest` that belong to it. -/
def first (p : Position) (c : Char) (rest : List Char) : Token × Nat :=
  let (kind, extra) := classify c rest
  let text := c :: rest.take extra
  (⟨kind, String.ofList text, ⟨p, p.advancedBy text⟩⟩, extra)

/-- The tokens of a text that begins at `p`, after those in `done`, which are kept in reverse.  The
first `skip` characters of the text belong to the last token done and `p` is the position after it. -/
def tokensAfter (done : List Token) (p : Position) : Nat → List Char → List Token
  | _, [] => (Token.endOfFile p :: done).reverse
  | skip + 1, _ :: rest => tokensAfter done p skip rest
  | 0, c :: rest =>
      let (token, extra) := first p c rest
      tokensAfter (token :: done) token.span.stop extra rest

/-- The tokens of a text that begins at `p`, blanks and comments included. -/
def tokens (p : Position) (text : List Char) : List Token :=
  tokensAfter [] p 0 text

end ScriptSyntax.Scan

namespace ScriptSyntax

/-- The tokens of a source text.  The last one, and no other, is the end of the file. -/
def tokenize (source : String) : List Token :=
  Scan.tokens Position.origin source.toList

end ScriptSyntax
