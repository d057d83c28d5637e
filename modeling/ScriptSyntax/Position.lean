/-!
Places in a source text.  A `Position` counts bytes from the start of the text and lines and columns
from one, columns in characters; a `Span` is the stretch between two of them.  Positions are natural
numbers, so advancing over a text is total; the checked form `advancedBy?` refuses a position that
32 bits cannot hold.
-/

namespace ScriptSyntax

/-- The faults of an operation that is asked about a place which the text or the tree does not have, or
for more than a number of the machine can count. -/
inductive Fault where
  /-- A position has an offset, a line or a column beyond `Position.limit`. -/
  | positionOverflow
  /-- A sum of byte offsets or token places is beyond `sumLimit`. -/
  | sumOverflow
  /-- A span has its end before its start, so it has no length. -/
  | reversedSpan
  /-- A byte offset is past the end of the text. -/
  | outOfRange
  /-- A byte offset is in the middle of a character. -/
  | insideCharacter
  /-- A text is to fill more columns than `widthLimit`. -/
  | tooWide
  /-- A node has no child at an index. -/
  | missingChild
deriving DecidableEq, Repr

/-- The largest sum of two byte offsets or of two places in a sequence of tokens: the largest number of
64 bits. -/
def sumLimit : Nat := 18446744073709551615

/-- A location in a source text. -/
@[ext]
structure Position where
  /-- Bytes before the location. -/
  offset : Nat
  /-- Number of the line, from one. -/
  line : Nat
  /-- Number of the character on its line, from one. -/
  column : Nat
deriving DecidableEq, Repr, Inhabited

namespace Position

def origin : Position := ⟨0, 1, 1⟩

/-- The largest offset, line or column that a stored position can have: the largest number of 32
bits. -/
def limit : Nat := 4294967295

/-- A position that can be stored. -/
def Fits (p : Position) : Prop :=
  p.offset ≤ limit ∧ p.line ≤ limit ∧ p.column ≤ limit

instance (p : Position) : Decidable p.Fits := inferInstanceAs (Decidable (_ ∧ _ ∧ _))

/-- The position after one character: a newline starts the next line, any other character takes one
column. -/
def next (p : Position) (c : Char) : Position :=
  if c = '\n' then ⟨p.offset + c.utf8Size, p.line + 1, 1⟩
  else ⟨p.offset + c.utf8Size, p.line, p.column + 1⟩

/-- The position just past `text`, for a text that begins at `p`. -/
def advancedBy (p : Position) (text : List Char) : Position :=
  text.foldl next p

@[simp] theorem advancedBy_nil (p : Position) : p.advancedBy [] = p := rfl

@[simp] theorem advancedBy_cons (p : Position) (c : Char) (text : List Char) :
    p.advancedBy (c :: text) = (p.next c).advancedBy text := rfl

theorem advancedBy_append (p : Position) (first second : List Char) :
    p.advancedBy (first ++ second) = (p.advancedBy first).advancedBy second := by
  simp [advancedBy]

/-- Advances over `text` and refuses any position on the way that cannot be stored. -/
def advancedBy? (p : Position) (text : List Char) : Except Fault Position :=
  text.foldlM (fun p c => if (p.next c).Fits then .ok (p.next c) else .error .positionOverflow) p

theorem advancedBy_of_advancedBy? {p q : Position} {text : List Char}
    (hadvance : p.advancedBy? text = .ok q) : q = p.advancedBy text := by
  induction text generalizing p with
  | nil => simpa [advancedBy?, pure, Except.pure, eq_comm] using hadvance
  | cons c text ih =>
      by_cases hfits : (p.next c).Fits
      · simp only [advancedBy?, List.foldlM_cons, if_pos hfits] at hadvance
        exact ih hadvance
      · simp only [advancedBy?, List.foldlM_cons, if_neg hfits] at hadvance
        cases hadvance

/-- The line and column of a position, as messages and trees show them. -/
def display (p : Position) : String :=
  toString p.line ++ ":" ++ toString p.column

/-- Positions are ordered by offset, then by line, then by column. -/
def compare (p q : Position) : Ordering :=
  (Ord.compare p.offset q.offset).then <|
    (Ord.compare p.line q.line).then (Ord.compare p.column q.column)

end Position

/-- The stretch of text from `start` up to but not including `stop`. -/
@[ext]
structure Span where
  /-- Where the first character of the span stands. -/
  start : Position
  /-- The position just past the last character of the span. -/
  stop : Position
deriving DecidableEq, Repr, Inhabited

namespace Span

def empty (p : Position) : Span := ⟨p, p⟩

/-- The span from the start of `a` to the end of `b`. -/
def through (a b : Span) : Span := ⟨a.start, b.stop⟩

/-- The bytes of `b` are all bytes of `a`. -/
def contains (a b : Span) : Bool :=
  a.start.offset ≤ b.start.offset && b.stop.offset ≤ a.stop.offset

def length? (a : Span) : Except Fault Nat :=
  if a.start.offset ≤ a.stop.offset then .ok (a.stop.offset - a.start.offset)
  else .error .reversedSpan

end Span

end ScriptSyntax
