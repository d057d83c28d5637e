import ScriptSyntax.Proofs.Parsing.Grammar
import ScriptSyntax.Proofs.Token.Words
import ScriptSyntax.Proofs.Tree.Written

/-!
Well-formed trees: those that a script can be read to without an error.  Each node has the parts that
its kind asks for, names and literals are single tokens, and operators keep to their tiers of binding.
-/

namespace ScriptSyntax

namespace Node

/-! ### Operators -/

/-- The operator at the root of a tree: how tightly it binds, and its form. -/
def operator? (n : Node) : Option (BindingPower × OperatorForm) :=
  match n.kind with
  | .binaryExpr => n.literal.bind fun word => (TokenKind.ofWord word).operatorForm?
  | .inExpr => (TokenKind.keyword .inKw).operatorForm?
  | .rangeExpr => (TokenKind.operator .dotDot).operatorForm?
  | .memberAccess => TokenKind.dot.operatorForm?
  | .subscript => TokenKind.leftBracket.operatorForm?
  | _ => none

/-- An operator behind the node that binds as tightly as `power` is not taken into the node: no operand
that the node ends in is read with a weaker power. -/
def yields (power : BindingPower) : Node → Bool
  | ⟨kind, [operand], _, _⟩ =>
      if kind = .unaryBang ∨ kind = .awaitExpr then power ≤ .unary && yields power operand else true
  | ⟨kind, [left, right], span, literal⟩ =>
      match operator? ⟨kind, [left, right], span, literal⟩ with
      | some (_, .subscript) => true
      | some (next, form) => power ≤ form.rightPower next && yields power right
      | none => true
  | _ => true

/-! ### Nesting -/

/-- The levels that stay entered while the operators behind the node are read: one for its first operand
and one for each operator after it. -/
def opened : Node → Nat
  | ⟨kind, [left, right], span, literal⟩ =>
      if (operator? ⟨kind, [left, right], span, literal⟩).isSome then opened left + 1 else 1
  | _ => 1

def highest (levels : List Nat) : Nat :=
  levels.foldr max 0

/-- The most levels that a node enters at once; `parts` are those of its children. -/
def levelsAround (n : Node) (parts : List Nat) : Nat :=
  match n.kind with
  | .binaryExpr | .inExpr | .rangeExpr | .memberAccess | .subscript =>
      max (highest (parts.take 1)) (highest (n.children.head?.toList.map opened) + 1 +
        highest (parts.drop 1))
  | .identifier | .numberLit | .stringLit | .boolLit | .arrayLit | .objectLit | .unaryBang | .awaitExpr
  | .lambda | .block => highest parts + 1
  | .functionCall | .macroCall => highest parts.tail + 1
  | .functionDecl | .macroDecl | .structDecl | .structField | .keyValuePair => highest parts.tail
  | .parameterList | .importStmt | .importPath => 0
  | _ => highest parts

mutual
/-- The most levels of nesting that reading the node enters at once. -/
def nesting : Node → Nat
  | ⟨kind, children, span, literal⟩ =>
      levelsAround ⟨kind, children, span, literal⟩ (nestingList children)
def nestingList : List Node → List Nat
  | [] => []
  | n :: nodes => nesting n :: nestingList nodes
end

theorem nestingList_eq_map (nodes : List Node) : nestingList nodes = nodes.map nesting := by
  induction nodes with
  | nil => rfl
  | cons n nodes ih => rw [nestingList, ih, List.map_cons]

theorem nesting_mk (kind : NodeKind) (children : List Node) (span : Span) (literal : Option String) :
    nesting ⟨kind, children, span, literal⟩ =
      levelsAround ⟨kind, children, span, literal⟩ (children.map nesting) := by
  rw [nesting, nestingList_eq_map]

@[simp] theorem highest_nil : highest [] = 0 := rfl

@[simp] theorem highest_cons (level : Nat) (levels : List Nat) :
    highest (level :: levels) = max level (highest levels) := rfl

theorem le_highest {level : Nat} {levels : List Nat} (h : level ∈ levels) :
    level ≤ highest levels := by
  induction levels with
  | nil => cases h
  | cons first levels ih =>
      rw [highest_cons]
      rcases List.mem_cons.mp h with rfl | hrest
      · omega
      · have := ih hrest
        omega

/-! ### Trees without spans -/

mutual
/-- The tree without its places in a source. -/
def bare : Node → Node
  | ⟨kind, children, _, literal⟩ => ⟨kind, bareList children, default, literal⟩
def bareList : List Node → List Node
  | [] => []
  | n :: nodes => bare n :: bareList nodes
end

theorem bareList_eq_map (nodes : List Node) : bareList nodes = nodes.map bare := by
  induction nodes with
  | nil => rfl
  | cons n nodes ih => rw [bareList, ih, List.map_cons]

theorem bare_mk (kind : NodeKind) (children : List Node) (span : Span) (literal : Option String) :
    bare ⟨kind, children, span, literal⟩ = ⟨kind, children.map bare, default, literal⟩ := by
  rw [bare, bareList_eq_map]

theorem kind_bare (n : Node) : n.bare.kind = n.kind := by
  cases n
  rw [bare_mk]

theorem isMemberPath_bare (n : Node) : Parser.isMemberPath n.bare = Parser.isMemberPath n := by
  fun_induction Parser.isMemberPath n with
  | case1 => rw [bare_mk, Parser.isMemberPath]
  | case2 object member span literal ih =>
      rw [bare_mk, List.map_cons, List.map_cons, List.map_nil, Parser.isMemberPath, kind_bare, ih]
  | case3 n hname hmember =>
      obtain ⟨kind, children, span, literal⟩ := n
      rw [bare_mk]
      unfold Parser.isMemberPath
      split
      · rename_i heq
        cases heq
        exact absurd rfl (hname children span literal)
      · rename_i object member _ _ heq
        obtain ⟨rfl, hchildren, -, -⟩ := Node.mk.inj heq
        obtain ⟨first, rest, rfl, -, hrest⟩ := List.map_eq_cons_iff.mp hchildren
        obtain ⟨second, none, rfl, -, hnone⟩ := List.map_eq_cons_iff.mp hrest
        obtain rfl := List.map_eq_nil_iff.mp hnone
        exact absurd rfl (hmember first second span literal)
      · rfl

theorem isError_of_bare {n n' : Node} (h : n'.bare = n.bare) : n'.isError = n.isError := by
  rw [isError, isError, ← kind_bare n', h, kind_bare]

theorem isValidTarget_of_bare {target target' : Node} (h : target'.bare = target.bare)
    (kind : NodeKind) : Parser.isValidTarget kind target' = Parser.isValidTarget kind target := by
  unfold Parser.isValidTarget
  rw [← kind_bare target', ← isMemberPath_bare target', h, kind_bare, isMemberPath_bare]

/-! ### Shapes -/

/-- The node is a well-formed tree for a part of the grammar.  The operators of an expression bind
tighter than the power it is read with, and none is taken into the operand to its left. -/
inductive WellFormed : Part → Node → Prop where
  | literal {token : TokenKind} {kind : NodeKind} {text : String} {span : Span}
      (hkind : Parser.literalKind? token = some kind) (htext : token.Writes text) :
      WellFormed (.operand .literal) ⟨kind, [], span, some text⟩
  | identifier {text : String} {span : Span} (htext : TokenKind.identifier.Writes text) :
      WellFormed .name ⟨.identifier, [], span, some text⟩
  | name {n : Node} (hname : WellFormed .name n) : WellFormed (.operand .name) n
  | call {callee : Node} {values : List Node} {span : Span} (hcallee : WellFormed .name callee)
      (hvalues : ∀ value ∈ values, WellFormed (.expression .lowest) value) :
      WellFormed (.operand .name) ⟨.functionCall, callee :: values, span, none⟩
  | array {elements : List Node} {span : Span}
      (helements : ∀ element ∈ elements, WellFormed (.expression .lowest) element) :
      WellFormed (.operand .array) ⟨.arrayLit, elements, span, none⟩
  | object {entries : List Node} {span : Span}
      (hentries : ∀ entry ∈ entries, WellFormed .entry entry) :
      WellFormed (.operand .object) ⟨.objectLit, entries, span, none⟩
  | lambda {parameters body : Node} {span : Span} (hparameters : WellFormed .parameters parameters)
      (hbody : WellFormed .block body) :
      WellFormed (.operand .lambda) ⟨.lambda, [parameters, body], span, none⟩
  | macroCall {sigil : TokenKind} {text : String} {callee : Node} {values : List Node} {span : Span}
      (hsigil : sigil.operandForm? = some .macroCall) (htext : sigil.spelling? = some text)
      (hcallee : WellFormed .name callee)
      (hvalues : ∀ value ∈ values, WellFormed (.expression .lowest) value) :
      WellFormed (.operand .macroCall) ⟨.macroCall, callee :: values, span, some text⟩
  | awaitExpr {operand : Node} {span : Span} (hoperand : WellFormed (.expression .unary) operand) :
      WellFormed (.operand .awaitExpr) ⟨.awaitExpr, [operand], span, none⟩
  | bang {word : TokenKind} {text : String} {operand : Node} {span : Span}
      (hword : word.operandForm? = some .bang) (htext : word.spelling? = some text)
      (hoperand : WellFormed (.expression .unary) operand) :
      WellFormed (.operand .bang) ⟨.unaryBang, [operand], span, some text⟩
  | operand {power : BindingPower} {form : OperandForm} {n : Node}
      (hoperand : WellFormed (.operand form) n) : WellFormed (.expression power) n
  | operation {power next : BindingPower} {token : TokenKind} {form : OperatorForm} {text : String}
      {left right : Node} {span : Span} (hform : form ≠ .subscript)
      (hkind : token.operatorForm? = some (next, form)) (htext : token.spelling? = some text)
      (hpower : power < next) (hleft : WellFormed (.expression power) left) (hyields : left.yields next)
      (hright : WellFormed (.expression (form.rightPower next)) right) :
      WellFormed (.expression power) ⟨form.nodeKind, [left, right], span, form.literal? text⟩
  | subscript {power : BindingPower} {left index : Node} {span : Span} (hpower : power < .member)
      (hleft : WellFormed (.expression power) left) (hyields : left.yields .member)
      (hindex : WellFormed (.expression .lowest) index) :
      WellFormed (.expression power) ⟨.subscript, [left, index], span, none⟩
  | entry {text : String} {value : Node} {span keySpan : Span} (htext : TokenKind.string.Writes text)
      (hvalue : WellFormed (.expression .lowest) value) :
      WellFormed .entry ⟨.keyValuePair, [⟨.stringLit, [], keySpan, some text⟩, value], span, none⟩
  | parameters {names : List Node} {span : Span} (hnames : ∀ name ∈ names, WellFormed .name name) :
      WellFormed .parameters ⟨.parameterList, names, span, none⟩
  | block {body : List Node} {span : Span} (hbody : ∀ n ∈ body, WellFormed .statement n) :
      WellFormed .block ⟨.block, body, span, none⟩
  | statement {form : StatementForm} {n : Node} (hform : WellFormed (.form form) n) :
      WellFormed .statement n
  | assignment {n : Node} (hassignment : WellFormed .assignment n) : WellFormed .statement n
  | bare {value : Node} {span : Span} (hvalue : WellFormed (.expression .assignment) value) :
      WellFormed .assignment ⟨.expressionStmt, [value], span, none⟩
  | assign {token : TokenKind} {text : String} {kind : NodeKind} {target value : Node} {span : Span}
      (hkind : Parser.assignmentKind? token = some kind) (htext : token.spelling? = some text)
      (htarget : WellFormed (.expression .assignment) target)
      (hvalid : Parser.isValidTarget kind target)
      (hvalue : WellFormed (.expression .assignment) value) :
      WellFormed .assignment
        ⟨kind, [target, value], span, if kind = .compoundAssign then some text else none⟩
  | functionDecl {isAsync : Bool} {name parameters body : Node} {span : Span}
      (hname : WellFormed .name name) (hparameters : WellFormed .parameters parameters)
      (hbody : WellFormed .block body) :
      WellFormed (.form .functionDecl)
        ⟨.functionDecl, [name, parameters, body], span, if isAsync then some "async" else none⟩
  | macroDecl {name parameters body : Node} {span : Span} (hname : WellFormed .name name)
      (hparameters : WellFormed .parameters parameters) (hbody : WellFormed .block body) :
      WellFormed (.form .macroDecl) ⟨.macroDecl, [name, parameters, body], span, none⟩
  | structDecl {name : Node} {fields methods : List Node} {span : Span} (hname : WellFormed .name name)
      (hfields : ∀ field ∈ fields, WellFormed .field field)
      (hmethods : ∀ method ∈ methods, WellFormed (.form .functionDecl) method) :
      WellFormed (.form .structDecl) ⟨.structDecl, name :: (fields ++ methods), span, none⟩
  | field {name value : Node} {span : Span} (hname : WellFormed .name name)
      (hvalue : WellFormed (.expression .lowest) value) :
      WellFormed .field ⟨.structField, [name, value], span, none⟩
  | importPath {path : Node} {span : Span} (hpath : WellFormed .path path) :
      WellFormed (.form .importStmt) ⟨.importStmt, [path], span, none⟩
  | importAs {path name : Node} {span : Span} (hpath : WellFormed .path path)
      (hname : WellFormed .name name) :
      WellFormed (.form .importStmt) ⟨.importStmt, [path, name], span, none⟩
  | importNames {names : List Node} {path : Node} {span : Span}
      (hnames : ∀ name ∈ names, WellFormed .name name) (hsome : names ≠ [])
      (hpath : WellFormed .path path) :
      WellFormed (.form .importStmt) ⟨.importStmt, names ++ [path], span, none⟩
  | address {scheme text : String} {span addressSpan : Span} (hscheme : scheme ∈ importSchemes)
      (htext : TokenKind.string.Writes text) :
      WellFormed .path ⟨.importPath, [⟨.stringLit, [], addressSpan, some text⟩], span, some scheme⟩
  | segments {scheme : String} {names : List Node} {span : Span} (hscheme : scheme ∈ importSchemes)
      (hnames : ∀ name ∈ names, WellFormed .name name) (hsome : names ≠ []) :
      WellFormed .path ⟨.importPath, names, span, some scheme⟩
  | forStmt {condition body : Node} {span : Span}
      (hcondition : WellFormed (.expression .lowest) condition) (hbody : WellFormed .block body) :
      WellFormed (.form .forStmt) ⟨.forStmt, [condition, body], span, none⟩
  | ifStmt {condition body : Node} {clauses last : List Node} {span : Span}
      (hcondition : WellFormed (.expression .lowest) condition) (hbody : WellFormed .block body)
      (hclauses : ∀ clause ∈ clauses, WellFormed (.clause false) clause)
      (hlast : ∀ clause ∈ last, WellFormed (.clause true) clause) (hlength : last.length ≤ 1) :
      WellFormed (.form .ifStmt) ⟨.ifStmt, condition :: body :: (clauses ++ last), span, none⟩
  | elifClause {condition body : Node} {span : Span}
      (hcondition : WellFormed (.expression .lowest) condition) (hbody : WellFormed .block body) :
      WellFormed (.clause false) ⟨.elifClause, [condition, body], span, none⟩
  | elseClause {body : Node} {span : Span} (hbody : WellFormed .block body) :
      WellFormed (.clause true) ⟨.elseClause, [body], span, none⟩
  | bareReturn {span : Span} : WellFormed (.form .returnStmt) ⟨.returnStmt, [], span, none⟩
  | returnStmt {value : Node} {span : Span} (hvalue : WellFormed (.expression .lowest) value) :
      WellFormed (.form .returnStmt) ⟨.returnStmt, [value], span, none⟩

/-! ### Operations -/

section
variable {token : TokenKind} {next : BindingPower} {form : OperatorForm} {text : String}
  (hform : form ≠ .subscript) (hkind : token.operatorForm? = some (next, form))
  (htext : token.spelling? = some text)
include hform hkind htext

theorem operator?_operation (left right : Node) (span : Span) :
    operator? ⟨form.nodeKind, [left, right], span, form.literal? text⟩ = some (next, form) := by
  have hword : TokenKind.ofWord text = token := (TokenKind.writes_of_spelling? htext).ofWord
  cases form with
  | binary =>
      show (TokenKind.ofWord text).operatorForm? = _
      rw [hword, hkind]
  | subscript => exact absurd rfl hform
  | _ =>
      unfold TokenKind.operatorForm? at hkind
      split at hkind <;> cases hkind
      rfl

theorem yields_operation (power : BindingPower) (left right : Node) (span : Span) :
    yields power ⟨form.nodeKind, [left, right], span, form.literal? text⟩ =
      (decide (power ≤ form.rightPower next) && right.yields power) := by
  rw [yields, operator?_operation hform hkind htext]
  cases form with
  | subscript => exact absurd rfl hform
  | _ => rfl

theorem opened_operation (left right : Node) (span : Span) :
    opened ⟨form.nodeKind, [left, right], span, form.literal? text⟩ = left.opened + 1 := by
  rw [opened, operator?_operation hform hkind htext]
  rfl

end

theorem nesting_operation (form : OperatorForm) (left right : Node) (span : Span)
    (literal : Option String) :
    nesting ⟨form.nodeKind, [left, right], span, literal⟩ =
      max left.nesting (left.opened + 1 + right.nesting) := by
  rw [nesting_mk]
  cases form <;> simp [levelsAround, OperatorForm.nodeKind]

theorem opened_operand {form : OperandForm} {n : Node} (h : WellFormed (.operand form) n) :
    n.opened = 1 := by
  have hoperator : n.operator? = none := by
    cases h with
    | literal hkind =>
        unfold Parser.literalKind? at hkind
        split at hkind <;> cases hkind
        all_goals rfl
    | name hname =>
        cases hname
        rfl
    | _ => rfl
  unfold opened
  split
  · rw [hoperator]
    rfl
  · rfl

theorem nesting_pos {form : OperandForm} {n : Node} (h : WellFormed (.operand form) n) :
    0 < n.nesting := by
  cases h with
  | literal hkind =>
      unfold Parser.literalKind? at hkind
      split at hkind <;> cases hkind
      all_goals
        rw [nesting_mk]
        exact Nat.succ_pos _
  | name hname =>
      cases hname
      rw [nesting_mk]
      exact Nat.succ_pos _
  | _ =>
      rw [nesting_mk]
      exact Nat.succ_pos _

theorem nesting_pos_of_expression {power : BindingPower} {n : Node}
    (h : WellFormed (.expression power) n) : 0 < n.nesting := by
  cases h with
  | operand hoperand => exact nesting_pos hoperand
  | operation =>
      rw [nesting_operation]
      omega
  | @subscript _ left index span =>
      have hnesting := nesting_operation .subscript left index span none
      simp only [OperatorForm.nodeKind] at hnesting
      omega

/-- The tree of a whole script: well-formed statements. -/
def IsScript (n : Node) : Prop :=
  n.kind = .sourceFile ∧ n.literal = none ∧ ∀ child ∈ n.children, WellFormed .statement child

/-- The tree as a text: its words with single blanks between them, and a newline after each statement
and each member of a structure. -/
def printed (n : Node) : String :=
  String.ofList (layout (n.written ["\n"]))

end Node

end ScriptSyntax
