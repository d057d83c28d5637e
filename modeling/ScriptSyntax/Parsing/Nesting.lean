import ScriptSyntax.Parsing.Recovery
import ScriptSyntax.Parsing.Statement

/-!
Expressions and blocks inside each other.  Each operand, each operator that is folded into it and each
block takes one level of nesting; the recursion is on the levels that are left.
-/

namespace ScriptSyntax.Parser

/-- The operator that continues an operand, if one is next that binds tighter than `power`. -/
def pendingOperator (power : BindingPower) : Parser (Option (BindingPower × OperatorForm)) := do
  match (← get).kind.operatorForm? with
  | some (next, form) => return if power < next then some (next, form) else none
  | none => return none

/-- Reads a block whose statements are read by `statement`.  A block that the file ends in is reported
where it was opened, and stands as an error around the statements it has. -/
def blockOf (statement : Parser Node) : Parser Node := do
  let opener ← expect .leftBrace
  let body ← delimited .rightBrace false (statementList statement true)
  if (← get).kind = .rightBrace then
    let closing ← advance
    return Node.branch .block (opener.span.through closing.span) body
  else
    report ⟨.unterminatedBlock opener.span.start.line, opener.span⟩
    return Node.error ((← get).spanFrom opener.span.start) body

mutual
/-- Reads an expression with the given number of levels left. -/
def expressionAt : Nat → BindingPower → Parser Node
  | 0, _ => failWith (·.nestingTooDeep)
  | levels + 1, power => nested do
      enterNesting
      match (← get).kind.operandForm? with
      | none => missingExpression
      | some form =>
          let left ← operand ⟨expressionAt levels, blockAt levels⟩ form
          climbAt levels power left
/-- Folds into `left` the operators that bind tighter than `power`. -/
def climbAt : Nat → BindingPower → Node → Parser Node
  | 0, power, left => do
      match ← pendingOperator power with
      | none => return left
      | some _ => failWith (·.nestingTooDeep)
  | levels + 1, power, left => do
      match ← pendingOperator power with
      | none => return left
      | some (next, form) =>
          enterNesting
          let folded ← continuation ⟨expressionAt levels, blockAt levels⟩ next left form
          climbAt levels power folded
/-- Reads a block with the given number of levels left. -/
def blockAt : Nat → Parser Node
  | 0 => failWith (·.nestingTooDeep)
  | levels + 1 => nested do
      enterNesting
      blockOf (statementIn ⟨expressionAt levels, blockAt levels⟩)
end

/-- Runs a form with the readers for the levels that are left. -/
def here {α : Type} (form : Inner → Parser α) : Parser α := do
  let levels := nestingLimit - (← get).depth
  form ⟨expressionAt levels, blockAt levels⟩

/-- Reads an expression whose operators all bind tighter than `power`. -/
def expression (power : BindingPower) : Parser Node :=
  here (·.expression power)

def block : Parser Node :=
  here (·.block)

def statement : Parser Node :=
  here statementIn

def sourceFile : Parser Node := do
  let body ← statementList statement false
  let s ← get
  return Node.branch .sourceFile ⟨s.start, s.endOfFile⟩ body

end ScriptSyntax.Parser
