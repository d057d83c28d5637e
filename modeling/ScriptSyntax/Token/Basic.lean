import ScriptSyntax.Position
import ScriptSyntax.Token.Kind

/-!
Tokens: a kind, the characters of the source that the token is made of, and where they stand.
-/

namespace ScriptSyntax

/-- A classified stretch of a source text. -/
structure Token where
  kind : TokenKind
  text : String
  span : Span
deriving DecidableEq, Repr

namespace Token

/-- The token that ends every token sequence. -/
def endOfFile (p : Position) : Token := ⟨.endOfFile, "", Span.empty p⟩

/-- How a message shows the token. -/
def display (t : Token) : String :=
  match t.kind with
  | .endOfFile => "end of file"
  | .newline => "newline"
  | _ => t.text

/-- How a listing shows the token: its kind, and its text if the kind leaves that open. -/
def listing (t : Token) : String :=
  match t.kind with
  | .string | .identifier | .number | .boolean => t.kind.name ++ " (" ++ t.text ++ ")"
  | _ => t.kind.name ++ " ()"

def isOneOf (t : Token) (kinds : List TokenKind) : Bool :=
  kinds.contains t.kind

end Token

end ScriptSyntax
