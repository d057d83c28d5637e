import ScriptSyntax.Diagnostic.Error

/-!
Diagnostics: errors and warnings as they are handed to the writer of a script.
-/

namespace ScriptSyntax

/-- How much a diagnostic weighs. -/
inductive Severity where
  /-- The script means what it says, but perhaps not what was meant. -/
  | warning
  /-- The script is broken. -/
  | error
deriving DecidableEq, Repr

namespace Severity

def name : Severity → String
  | warning => "Warning"
  | error => "Error"

/-- How a message names the severity. -/
def label : Severity → String
  | warning => "warning"
  | error => "error"

end Severity

/-- A message about a stretch of source. -/
structure Diagnostic where
  message : String
  span : Span
  severity : Severity
  category : Category
  /-- The name under which diagnostics of this sort are known. -/
  name : String
  /-- Further remarks, the tip of an error first. -/
  notes : List String
deriving DecidableEq, Repr

namespace Diagnostic

def warning (category : Category) (name message : String) (span : Span) : Diagnostic :=
  ⟨message, span, .warning, category, name, []⟩

/-- The diagnostic for an error, with the tip of its cause as a note. -/
def ofError (e : SyntaxError) : Diagnostic :=
  ⟨e.cause.message, e.span, .error, e.cause.category, e.cause.name, e.cause.tip?.toList⟩

def withNote (d : Diagnostic) (note : String) : Diagnostic :=
  { d with notes := d.notes ++ [note] }

/-- The diagnostic is about a broken script. -/
def isError (d : Diagnostic) : Bool := d.severity = .error

def display (d : Diagnostic) : String :=
  d.severity.label ++ "[" ++ d.name ++ "]: " ++ d.message ++ " (" ++ d.span.start.display ++ ")"

/-- Puts a diagnostic in front of all that do not start before it. -/
def insertInOrder (d : Diagnostic) : List Diagnostic → List Diagnostic
  | [] => [d]
  | e :: ds =>
      if e.span.start.offset < d.span.start.offset then e :: insertInOrder d ds else d :: e :: ds

/-- Diagnostics in the order of the bytes where they start; those that start at the same byte keep
their order. -/
def inSourceOrder (ds : List Diagnostic) : List Diagnostic :=
  ds.foldr insertInOrder []

theorem insertInOrder_perm (d : Diagnostic) (ds : List Diagnostic) :
    (insertInOrder d ds).Perm (d :: ds) := by
  induction ds with
  | nil => exact .refl _
  | cons e ds ih =>
      unfold insertInOrder
      split
      · exact (ih.cons e).trans (.swap d e ds)
      · exact .refl _

theorem inSourceOrder_perm (ds : List Diagnostic) : (inSourceOrder ds).Perm ds := by
  induction ds with
  | nil => exact .refl _
  | cons d ds ih => exact (insertInOrder_perm d _).trans (ih.cons d)

theorem insertInOrder_append {d : Diagnostic} {later : List Diagnostic}
    (hlater : ∀ e ∈ later, d.span.start.offset ≤ e.span.start.offset) (ds : List Diagnostic) :
    insertInOrder d (ds ++ later) = insertInOrder d ds ++ later := by
  induction ds with
  | nil =>
      cases later with
      | nil => rfl
      | cons e later =>
          have hbefore := hlater e (by simp)
          exact if_neg (Nat.not_lt.mpr hbefore)
  | cons e ds ih =>
      rw [List.cons_append, insertInOrder, insertInOrder, ih]
      split <;> rfl

theorem inSourceOrder_append {first later : List Diagnostic} {offset : Nat}
    (hfirst : ∀ d ∈ first, d.span.start.offset < offset)
    (hlater : ∀ d ∈ later, offset ≤ d.span.start.offset) :
    inSourceOrder (first ++ later) = inSourceOrder first ++ inSourceOrder later := by
  induction first with
  | nil => rfl
  | cons d first ih =>
      obtain ⟨hd, hfirst⟩ := List.forall_mem_cons.mp hfirst
      have hbehind : ∀ e ∈ inSourceOrder later, d.span.start.offset ≤ e.span.start.offset := by
        intro e he
        have hlate := hlater e ((inSourceOrder_perm later).mem_iff.mp he)
        exact Nat.le_of_lt (Nat.lt_of_lt_of_le hd hlate)
      show insertInOrder d (inSourceOrder (first ++ later)) = _
      rw [ih hfirst, insertInOrder_append hbehind]
      rfl

end Diagnostic

end ScriptSyntax
