/-!
Binding powers: how tightly an operator holds its operands.
-/

namespace ScriptSyntax

/-- The tiers of binding, the weakest first.  Membership is below ranges, so that `i in 0..10` reads as
`i in (0..10)`. -/
inductive BindingPower where
  | lowest | assignment | membership | range | logical | relational | additive | multiplicative | unary
  | call | member | primary
deriving DecidableEq, Repr

namespace BindingPower

def all : List BindingPower :=
  [.lowest, .assignment, .membership, .range, .logical, .relational, .additive, .multiplicative, .unary,
    .call, .member, .primary]

def name : BindingPower → String
  | lowest => "Default"
  | assignment => "Assignment"
  | membership => "In"
  | range => "Range"
  | logical => "Logical"
  | relational => "Relational"
  | additive => "Additive"
  | multiplicative => "Multiplicative"
  | unary => "Unary"
  | call => "Call"
  | member => "Member"
  | primary => "Primary"

/-- The number of tiers below. -/
def rank : BindingPower → Nat
  | lowest => 0
  | assignment => 1
  | membership => 2
  | range => 3
  | logical => 4
  | relational => 5
  | additive => 6
  | multiplicative => 7
  | unary => 8
  | call => 9
  | member => 10
  | primary => 11

instance : LE BindingPower := ⟨fun a b => a.rank ≤ b.rank⟩

instance : LT BindingPower := ⟨fun a b => a.rank < b.rank⟩

instance (a b : BindingPower) : Decidable (a ≤ b) := inferInstanceAs (Decidable (a.rank ≤ b.rank))

instance (a b : BindingPower) : Decidable (a < b) := inferInstanceAs (Decidable (a.rank < b.rank))

/-- The next weaker tier.  The right operand of an operator that groups to the right is read with it,
so that a following operator of the same tier belongs to that operand. -/
def weaker : BindingPower → BindingPower
  | lowest | assignment => lowest
  | membership => assignment
  | range => membership
  | logical => range
  | relational => logical
  | additive => relational
  | multiplicative => additive
  | unary => multiplicative
  | call => unary
  | member => call
  | primary => member

theorem rank_weaker (p : BindingPower) : p.weaker.rank = p.rank - 1 := by cases p <;> rfl

end BindingPower

end ScriptSyntax
