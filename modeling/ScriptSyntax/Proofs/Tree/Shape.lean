import ScriptSyntax.Proofs.Tree.Every
import ScriptSyntax.Proofs.Tree.WellFormed

/-!
Shapes of nodes: which children and which literal a node of a kind has, in any tree that a parse gives.
Where a script is broken an error node stands in the place of a part, or around a part that is out of
place.
-/

namespace ScriptSyntax

/-- A form that has a value. -/
def NodeKind.isExpression : NodeKind → Bool
  | identifier | numberLit | stringLit | boolLit | arrayLit | objectLit | binaryExpr | unaryBang
  | awaitExpr | rangeExpr | inExpr | memberAccess | subscript | lambda | functionCall | macroCall => true
  | _ => false

def binaryOperators : List String :=
  ["+", "-", "*", "/", "%", "==", "!=", ">", "<", ">=", "<=", "&&", "||", "and", "or"]

/-- The operators that change what a name stands for. -/
def compoundOperators : List String := ["+=", "-=", "*=", "/="]

namespace Node

/-- An error node that has nothing below it. -/
def IsGap (n : Node) : Prop := n.kind = .errorNode ∧ n.children = []

/-- An expression, or the gap where one is missing or broken. -/
def IsExpression (n : Node) : Prop := n.kind.isExpression ∨ n.IsGap

/-- A statement, or the gap in place of a broken one. -/
def IsStatement (n : Node) : Prop := n.kind.isStatement ∨ n.IsGap

/-- A block, or the error node of a block that is never closed. -/
def IsBody (n : Node) : Prop :=
  n.kind = .block ∨ n.kind = .errorNode ∧ ∀ child ∈ n.children, child.IsStatement

/-- The node is an error node around one node that has the property. -/
def Wraps (P : Node → Prop) (n : Node) : Prop :=
  ∃ wrapped, P wrapped ∧ n = wrapped.errorWrapping

/-- A name, or a member of such a path that is a name itself. -/
inductive IsMemberPath : Node → Prop where
  | name {n : Node} (hkind : n.kind = .identifier) : IsMemberPath n
  | member {n object member : Node} (hkind : n.kind = .memberAccess)
      (hchildren : n.children = [object, member]) (hobject : IsMemberPath object)
      (hmember : member.kind = .identifier) : IsMemberPath n

/-- A node that an assignment of the kind can change: a constant is bound to a name only. -/
def IsTarget (kind : NodeKind) (n : Node) : Prop :=
  n.kind = .identifier ∨ kind ≠ .constantDecl ∧ n.IsMemberPath

/-- What stands to the left in an assignment of the kind: a target, a gap, or an expression that can be no
target, which is wrapped. -/
def IsAssigned (kind : NodeKind) (n : Node) : Prop :=
  IsTarget kind n ∨ n.IsGap ∨
    n.Wraps fun target => target.kind.isExpression ∧ ¬IsTarget kind target

/-- A path with a known scheme, or one with an unknown scheme that is wrapped. -/
def IsPath (n : Node) : Prop :=
  (n.kind = .importPath ∧ ∃ scheme ∈ importSchemes, n.literal = some scheme) ∨
    n.Wraps fun path => path.kind = .importPath ∧ ∀ scheme ∈ importSchemes, path.literal ≠ some scheme

/-- A node that can be wrapped where it is out of place. -/
def IsMisplaced (n : Node) : Prop :=
  n.kind.isExpression ∨ n.kind = .structField ∨ n.kind = .elifClause ∨ n.kind = .elseClause ∨
    n.kind = .importPath

/-- A method, or a field that is wrapped because it stands behind a method. -/
def IsLateMember (n : Node) : Prop :=
  n.kind = .functionDecl ∨ n.Wraps (·.kind = .structField)

/-- A clause that is wrapped because it stands behind the last one. -/
def IsLateClause (n : Node) : Prop :=
  n.Wraps fun clause => clause.kind = .elifClause ∨ clause.kind = .elseClause

/-- The members of a structure: fields, and from the first method on methods and wrapped fields. -/
def AreMembers (members : List Node) : Prop :=
  ∃ fields later, members = fields ++ later ∧ (∀ field ∈ fields, field.kind = .structField) ∧
    (∀ first ∈ later.head?, first.kind = .functionDecl) ∧ ∀ member ∈ later, member.IsLateMember

/-- The clauses of an `if`: any number with a condition, at most one without, and behind that one wrapped
clauses. -/
def AreClauses (clauses : List Node) : Prop :=
  ∃ conditional last late, clauses = conditional ++ last ++ late ∧
    (∀ clause ∈ conditional, clause.kind = .elifClause) ∧
    (∀ clause ∈ last, clause.kind = .elseClause) ∧ last.length ≤ 1 ∧
    (∀ clause ∈ late, clause.IsLateClause) ∧ (late ≠ [] → last ≠ [])

/-- The parts of an import: a path, a path and the name that it gets, or names and the path that they are
taken from. -/
def AreImported (parts : List Node) : Prop :=
  (∃ path, parts = [path] ∧ path.IsPath) ∨
    (∃ path name, parts = [path, name] ∧ path.IsPath ∧ name.kind = .identifier) ∨
      ∃ names path, parts = names ++ [path] ∧ names ≠ [] ∧
        (∀ name ∈ names, name.kind = .identifier) ∧ path.IsPath

/-- The children are those that the kind of the node asks for. -/
def HasParts (n : Node) : Prop :=
  match n.kind with
  | .sourceFile | .block => ∀ child ∈ n.children, child.IsStatement
  | .variableAssign | .compoundAssign | .constantDecl => ∃ target value,
      n.children = [target, value] ∧ IsAssigned n.kind target ∧ value.IsExpression
  | .functionDecl | .macroDecl => ∃ name parameters body,
      n.children = [name, parameters, body] ∧ name.kind = .identifier ∧
        parameters.kind = .parameterList ∧ body.IsBody
  | .structDecl => ∃ name members,
      n.children = name :: members ∧ name.kind = .identifier ∧ AreMembers members
  | .structField => ∃ name value,
      n.children = [name, value] ∧ name.kind = .identifier ∧ value.IsExpression
  | .expressionStmt | .unaryBang | .awaitExpr => ∃ value, n.children = [value] ∧ value.IsExpression
  | .returnStmt => n.children = [] ∨ ∃ value, n.children = [value] ∧ value.IsExpression
  | .importStmt => AreImported n.children
  | .importPath => (∃ address, n.children = [address] ∧ address.kind = .stringLit) ∨
      n.children ≠ [] ∧ ∀ segment ∈ n.children, segment.kind = .identifier
  | .forStmt | .elifClause => ∃ condition body,
      n.children = [condition, body] ∧ condition.IsExpression ∧ body.IsBody
  | .ifStmt => ∃ condition body clauses,
      n.children = condition :: body :: clauses ∧ condition.IsExpression ∧ body.IsBody ∧
        AreClauses clauses
  | .elseClause => ∃ body, n.children = [body] ∧ body.IsBody
  | .identifier | .numberLit | .stringLit | .boolLit => n.children = []
  | .arrayLit => ∀ element ∈ n.children, element.IsExpression
  | .objectLit => ∀ entry ∈ n.children, entry.kind = .keyValuePair
  | .keyValuePair => ∃ key value,
      n.children = [key, value] ∧ key.kind = .stringLit ∧ value.IsExpression
  | .binaryExpr | .rangeExpr | .inExpr | .memberAccess | .subscript => ∃ left right,
      n.children = [left, right] ∧ left.IsExpression ∧ right.IsExpression
  | .lambda => ∃ parameters body,
      n.children = [parameters, body] ∧ parameters.kind = .parameterList ∧ body.IsBody
  | .functionCall | .macroCall => ∃ callee values,
      n.children = callee :: values ∧ callee.kind = .identifier ∧
        ∀ value ∈ values, value.IsExpression
  | .parameterList => ∀ name ∈ n.children, name.kind = .identifier
  | .errorNode => (∀ child ∈ n.children, child.IsStatement) ∨ n.Wraps IsMisplaced

/-- The literal is one that the kind of the node asks for. -/
def HasLiteral (n : Node) : Prop :=
  match n.kind with
  | .identifier | .importPath => ∃ text, n.literal = some text ∧ TokenKind.identifier.Writes text
  | .numberLit => ∃ text, n.literal = some text ∧ TokenKind.number.Writes text
  | .stringLit => ∃ text, n.literal = some text ∧ TokenKind.string.Writes text
  | .boolLit => ∃ text, n.literal = some text ∧ TokenKind.boolean.Writes text
  | .binaryExpr => ∃ operator ∈ binaryOperators, n.literal = some operator
  | .compoundAssign => ∃ operator ∈ compoundOperators, n.literal = some operator
  | .unaryBang => n.literal = some "!" ∨ n.literal = some "not"
  | .macroCall => n.literal = some "$" ∨ n.literal = some "@"
  | .functionDecl => n.literal = none ∨ n.literal = some "async"
  | _ => n.literal = none

/-- The node has the children and the literal of its kind. -/
structure Shaped (n : Node) : Prop where
  parts : n.HasParts
  literal : n.HasLiteral

theorem IsExpression.isExpression_kind {n : Node} (h : n.IsExpression) (herror : n.isError = false) :
    n.kind.isExpression := by
  rcases h with hkind | ⟨hgap, -⟩
  · exact hkind
  · simp [isError, hgap] at herror

theorem IsExpression.isGap {n : Node} (h : n.IsExpression) (herror : n.isError) : n.IsGap := by
  rcases h with hkind | hgap
  · have hgap : n.kind = .errorNode := by simpa [isError] using herror
    rw [hgap] at hkind
    cases hkind
  · exact hgap

theorem HasParts.arity {n : Node} (h : n.HasParts) {count : Nat}
    (hcount : n.kind.fixedArity? = some count) : n.children.length = count := by
  obtain ⟨kind, children, span, literal⟩ := n
  cases kind with
  | binaryExpr | rangeExpr | inExpr | memberAccess | subscript | keyValuePair =>
      obtain ⟨first, second, rfl, -, -⟩ := h
      cases hcount
      rfl
  | unaryBang | awaitExpr | expressionStmt =>
      obtain ⟨value, rfl, -⟩ := h
      cases hcount
      rfl
  | _ => cases hcount

theorem isMemberPath_iff {n : Node} : Parser.isMemberPath n ↔ n.IsMemberPath := by
  fun_induction Parser.isMemberPath n with
  | case1 children span literal => simpa using IsMemberPath.name rfl
  | case2 object member span literal ih =>
      simp only [Bool.and_eq_true, decide_eq_true_eq, ih]
      constructor
      · rintro ⟨hmember, hobject⟩
        exact .member rfl rfl hobject hmember
      · rintro (⟨⟨⟩⟩ | ⟨-, ⟨⟩, hobject, hmember⟩)
        exact ⟨hmember, hobject⟩
  | case3 n hname hmember =>
      refine iff_of_false Bool.false_ne_true ?_
      obtain ⟨kind, children, span, literal⟩ := n
      rintro (⟨rfl⟩ | ⟨rfl, rfl, -, -⟩)
      · exact hname _ _ _ rfl
      · exact hmember _ _ _ _ rfl

theorem isValidTarget_iff {kind : NodeKind} {n : Node} :
    Parser.isValidTarget kind n ↔ IsTarget kind n := by
  unfold Parser.isValidTarget IsTarget
  split
  · rename_i hkind
    simp [hkind]
  · rename_i hkind
    rw [isMemberPath_iff]
    constructor
    · exact fun hpath => .inr ⟨hkind, hpath⟩
    · rintro (hname | ⟨-, hpath⟩)
      · exact .name hname
      · exact hpath

end Node

end ScriptSyntax
