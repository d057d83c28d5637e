/-!
Lengths of time as the log shows them: in the largest unit of which there is at least one, with as many
decimals as the nanoseconds need.
-/

namespace ScriptSyntax.Duration

/-- The decimals of a part given in as many places, without zeros at the end. -/
def decimals (places part : Nat) : String :=
  let digits := (Nat.toDigits 10 part).leftpad places '0'
  let shown := (digits.reverse.dropWhile (· = '0')).reverse
  if shown.isEmpty then "" else "." ++ String.ofList shown

/-- A length of time in nanoseconds, in the unit that has `size` of them, a one with `places` zeros. -/
def inUnit (nanoseconds size places : Nat) (unit : String) : String :=
  toString (nanoseconds / size) ++ decimals places (nanoseconds % size) ++ unit

def display (nanoseconds : Nat) : String :=
  if 1000000000 ≤ nanoseconds then inUnit nanoseconds 1000000000 9 "s"
  else if 1000000 ≤ nanoseconds then inUnit nanoseconds 1000000 6 "ms"
  else if 1000 ≤ nanoseconds then inUnit nanoseconds 1000 3 "µs"
  else inUnit nanoseconds 1 0 "ns"

end ScriptSyntax.Duration
