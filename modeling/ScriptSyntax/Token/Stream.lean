import ScriptSyntax.Text.Slice
import ScriptSyntax.Token.Scan

/-!
A stream of the tokens of a source text from any position on.  The offset of the position selects the
text that is left; its line and column are taken as given, so a stream can restart inside a text it has
read before.  A stream is a value: keeping one keeps the place in the text.
-/

namespace ScriptSyntax

/-- The part of a source text that a stream has not read. -/
inductive Remaining where
  /-- The characters left, possibly none. -/
  | text (chars : List Char)
  /-- The position is past the end of the source. -/
  | beyondEnd
  /-- The position is in the middle of a character. -/
  | insideCharacter
deriving DecidableEq, Repr

/-- A place in the token sequence of a source text. -/
structure TokenStream where
  /-- What is left to read. -/
  remaining : Remaining
  /-- Where the next token begins. -/
  position : Position
  /-- The end of the file has been read. -/
  finished : Bool
deriving DecidableEq, Repr

namespace TokenStream

/-- The tokens of `source` from `p` on. -/
def startingAt (source : String) (p : Position) : TokenStream :=
  let remaining := match Text.splitAtByte? source.toList p.offset with
    | .ok (_, rest) => .text rest
    | .error .insideCharacter => .insideCharacter
    | .error _ => .beyondEnd
  ⟨remaining, p, false⟩

def ofSource (source : String) : TokenStream :=
  startingAt source Position.origin

def atEnd (s : TokenStream) : Bool :=
  match s.remaining with
  | .text [] | .beyondEnd => true
  | _ => false

def remainder (s : TokenStream) : Except Fault String :=
  match s.remaining with
  | .text rest => .ok (String.ofList rest)
  | .beyondEnd => .error .outOfRange
  | .insideCharacter => .error .insideCharacter

/-- The next token and the stream after it, or no token once the end of the file has been read. -/
def next (s : TokenStream) : Except Fault (Option Token × TokenStream) :=
  if s.finished then .ok (none, s)
  else match s.remaining with
    | .insideCharacter => .error .insideCharacter
    | .beyondEnd | .text [] => .ok (some (Token.endOfFile s.position), { s with finished := true })
    | .text (c :: rest) =>
        let (token, extra) := Scan.first s.position c rest
        if token.span.stop.Fits then
          .ok (some token, ⟨.text (rest.drop extra), token.span.stop, false⟩)
        else .error .positionOverflow

/-- All tokens left, and the stream after them. -/
def drain (s : TokenStream) : Except Fault (List Token × TokenStream) :=
  if s.finished then .ok ([], s)
  else match s.remaining with
    | .insideCharacter => .error .insideCharacter
    | .beyondEnd => .ok ([Token.endOfFile s.position], { s with finished := true })
    | .text rest =>
        let tokens := Scan.tokens s.position rest
        let stop := (tokens.getLast?.map (·.span.stop)).getD s.position
        if tokens.all (·.span.stop.Fits) then .ok (tokens, ⟨.text [], stop, true⟩)
        else .error .positionOverflow

/-- The stream after its first `count` tokens. -/
def skip (s : TokenStream) : Nat → Except Fault TokenStream
  | 0 => .ok s
  | count + 1 => do
      let (_, rest) ← s.next
      rest.skip count

end TokenStream

end ScriptSyntax
