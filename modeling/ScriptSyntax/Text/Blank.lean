/-!
Blank characters, as the property White_Space of Unicode defines them, and the two ways a line loses
its blanks for display.
-/

namespace ScriptSyntax.Text

/-- A member of White_Space. -/
def isBlank (c : Char) : Bool :=
  (0x9 ≤ c.toNat && c.toNat ≤ 0xd) || (0x2000 ≤ c.toNat && c.toNat ≤ 0x200a) ||
    c.toNat ∈ [0x20, 0x85, 0xa0, 0x1680, 0x2028, 0x2029, 0x202f, 0x205f, 0x3000]

theorem isBlank_of_isWhitespace {c : Char} (hspace : c.isWhitespace) : isBlank c := by
  simp only [Char.isWhitespace, Bool.or_eq_true, decide_eq_true_eq] at hspace
  rcases hspace with ((rfl | rfl) | rfl) | rfl <;> rfl

/-- The indentation of a line: the spaces and tabs at its start. -/
def isIndent (c : Char) : Bool := c = ' ' || c = '\t'

def trimEnd (text : List Char) : List Char :=
  (text.reverse.dropWhile isBlank).reverse

end ScriptSyntax.Text
