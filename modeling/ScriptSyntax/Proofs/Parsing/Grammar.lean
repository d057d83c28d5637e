import ScriptSyntax.Proofs.Parsing.Loop

/-!
The grammar as a relation.  `Reads clean part nodes s s'` says that a part of the grammar gives the nodes and
leads from the state `s` to the state `s'`.  It has one rule for each way in which a form can succeed, so
what every successful parse has in common is shown by induction on its rules.
-/

namespace ScriptSyntax

/-! ### The kinds of literals and of assignments -/

theorem Parser.literalKind?_cases {token : TokenKind} {kind : NodeKind}
    (h : literalKind? token = some kind) :
    token = .number ∧ kind = .numberLit ∨ token = .string ∧ kind = .stringLit ∨
      token = .boolean ∧ kind = .boolLit := by
  unfold literalKind? at h
  split at h <;> cases h
  all_goals simp

theorem Parser.assignmentKind?_cases {token : TokenKind} {kind : NodeKind}
    (h : assignmentKind? token = some kind) :
    token = .operator .assign ∧ kind = .variableAssign ∨
      token = .operator .colonAssign ∧ kind = .constantDecl ∨
      (∃ o, token = .operator o) ∧ kind = .compoundAssign := by
  unfold assignmentKind? at h
  split at h <;> cases h
  all_goals simp

/-! ### Parts and their rules -/

/-- What stands between the commas of a list. -/
inductive Item where
  | name | expression | entry
deriving DecidableEq, Repr

/-- The parts of the grammar. -/
inductive Part where
  /-- An expression whose operators all bind tighter than the power. -/
  | expression (power : BindingPower)
  /-- The operators after `left` that bind tighter than the power. -/
  | climb (power : BindingPower) (left : Node)
  | operand (form : OperandForm)
  /-- An operator that binds as tightly as `next`, and its right operand. -/
  | continuation (next : BindingPower) (left : Node) (form : OperatorForm)
  | name
  | entry
  /-- Items between two brackets. -/
  | list (opener closer : TokenKind) (expressionList : Bool) (item : Item)
  /-- Further items, each after a comma. -/
  | more (item : Item)
  | parameters
  | block
  | statements (inBlock : Bool)
  | statement
  /-- An expression and, after an assignment operator, the value that is assigned. -/
  | assignment
  | form (form : StatementForm)
  /-- A member of a structure, perhaps after a method. -/
  | member (seenMethod isMethod : Bool)
  | members (seenMethod : Bool)
  | field
  | path
  | segments
  | moreSegments
  | clause (isElse : Bool)
  /-- The clauses of an `if`, perhaps after its last one. -/
  | clauses (seenElse : Bool)

/-- The node that a part continues. -/
def Part.left? : Part → Option Node
  | climb _ left => some left
  | continuation _ left _ => some left
  | _ => none

namespace Item

def part : Item → Part
  | name => .name
  | expression => .expression .lowest
  | entry => .entry

@[simp] theorem left?_part (item : Item) : item.part.left? = none := by
  cases item <;> rfl

end Item

namespace OperatorForm

/-- The node that an operation is. -/
def nodeKind : OperatorForm → NodeKind
  | binary => .binaryExpr
  | membership => .inExpr
  | range => .rangeExpr
  | member => .memberAccess
  | subscript => .subscript

/-- The operators of a right operand bind tighter than this, for an operator that binds as tightly as
`next`. -/
def rightPower (form : OperatorForm) (next : BindingPower) : BindingPower :=
  match form with
  | range => next.weaker
  | subscript => .lowest
  | _ => next

/-- The piece of source that a node keeps of its operator. -/
def literal? (form : OperatorForm) (text : String) : Option String :=
  match form with
  | binary => some text
  | _ => none

end OperatorForm

def StatementForm.word : StatementForm → Keyword
  | functionDecl => .fnKw
  | macroDecl => .macroKw
  | structDecl => .structKw
  | importStmt => .useKw
  | forStmt => .forKw
  | ifStmt => .ifKw
  | returnStmt => .returnKw

namespace State

/-- The node of a kind that the next token alone makes. -/
def leaf (s : State) (kind : NodeKind) : Node :=
  Node.leaf kind s.current.span s.current.text

/-- The operator that comes next, if it binds tighter than `power`. -/
def pending (s : State) (power : BindingPower) : Option (BindingPower × OperatorForm) :=
  s.kind.operatorForm?.filter fun next => power < next.1

theorem pending_eq_some {s : State} {power next : BindingPower} {form : OperatorForm} :
    s.pending power = some (next, form) ↔
      s.kind.operatorForm? = some (next, form) ∧ power < next := by
  simp [pending, Option.filter_eq_some_iff]

def gapDiagnostic (s : State) : Diagnostic :=
  if s.slot.commentBefore.isSome then
    (Diagnostic.ofError s.missingExpression).withNote "comments are not expressions"
  else Diagnostic.ofError s.missingExpression

/-- The state at the beginning of a statement, once it is in the journal. -/
def begun (s : State) : State :=
  s.logged (.statement s.current.span.start s.kind)

/-- The part that a statement is, by its first tokens. -/
def statementPart (s : State) : Part :=
  match s.kind.statementForm? with
  | none => .assignment
  | some form =>
      if s.kind = .keyword .fnKw ∧ (s.peek 1).kind = .leftParen then .assignment else .form form

@[simp] theorem left?_statementPart (s : State) : s.statementPart.left? = none := by
  unfold statementPart
  repeat' split
  all_goals rfl

end State

/-- The words that begin the declaration of a function: the state after them, and whether the function
is asynchronous. -/
inductive FunctionWords : State → Bool → State → Prop where
  | plain {s : State} (hfn : s.kind = .keyword .fnKw) (hname : s.advanced.kind ≠ .keyword .asyncKw) :
      FunctionWords s false s.advanced
  | asyncFirst {s : State} (hasync : s.kind = .keyword .asyncKw)
      (hfn : s.advanced.kind = .keyword .fnKw) : FunctionWords s true s.advanced.advanced
  | asyncLast {s : State} (hfn : s.kind = .keyword .fnKw)
      (hasync : s.advanced.kind = .keyword .asyncKw) : FunctionWords s true s.advanced.advanced

/-- The part gives the nodes and leads from one state to the other. -/
inductive Reads (clean : Bool) : Part → List Node → State → State → Prop where
  /-- An expression that is missing before a token which can only close something. -/
  | gap {power : BindingPower} {s : State} (hdepth : s.depth < nestingLimit)
      (hform : s.kind.operandForm? = none) (hboundary : s.atBoundary) (herror : clean = false) :
      Reads clean (.expression power) [Node.error (Span.empty s.current.span.start) []] s
        ((s.entered.reported s.gapDiagnostic).leaving s.depth)
  | expression {power : BindingPower} {form : OperandForm} {left node : Node} {s s₁ s₂ : State}
      (hdepth : s.depth < nestingLimit) (hform : s.kind.operandForm? = some form)
      (hleft : Reads clean (.operand form) [left] s.entered s₁)
      (hclimb : Reads clean (.climb power left) [node] s₁ s₂) :
      Reads clean (.expression power) [node] s (s₂.leaving s.depth)
  | climbStop {power : BindingPower} {left : Node} {s : State} (hpending : s.pending power = none) :
      Reads clean (.climb power left) [left] s s
  | climbFold {power next : BindingPower} {form : OperatorForm} {left folded node : Node}
      {s s₁ s₂ : State} (hpending : s.pending power = some (next, form))
      (hdepth : s.depth < nestingLimit)
      (hfolded : Reads clean (.continuation next left form) [folded] s.entered s₁)
      (hclimb : Reads clean (.climb power folded) [node] s₁ s₂) :
      Reads clean (.climb power left) [node] s s₂
  | literal {kind : NodeKind} {s : State} (hkind : Parser.literalKind? s.kind = some kind) :
      Reads clean (.operand .literal) [s.leaf kind] s s.advanced
  | name {s : State} (hkind : s.kind = .identifier) (hparen : s.advanced.kind ≠ .leftParen) :
      Reads clean (.operand .name) [s.leaf .identifier] s s.advanced
  | call {values : List Node} {s s' : State} (hkind : s.kind = .identifier)
      (hvalues : Reads clean (.list .leftParen .rightParen true .expression) values s.advanced s') :
      Reads clean (.operand .name)
        [Node.branch .functionCall (s'.spanFrom s.current.span.start) (s.leaf .identifier :: values)]
        s s'
  | array {elements : List Node} {s s' : State}
      (helements : Reads clean (.list .leftBracket .rightBracket true .expression) elements s s') :
      Reads clean (.operand .array)
        [Node.branch .arrayLit (s'.spanFrom s.current.span.start) elements] s s'
  | object {entries : List Node} {s s' : State}
      (hentries : Reads clean (.list .leftBrace .rightBrace true .entry) entries s s') :
      Reads clean (.operand .object)
        [Node.branch .objectLit (s'.spanFrom s.current.span.start) entries] s s'
  | lambda {parameters body : Node} {s s₁ s₂ : State} (hkind : s.kind = .keyword .fnKw)
      (hparameters : Reads clean .parameters [parameters] s.advanced s₁)
      (hbody : Reads clean .block [body] s₁ s₂) :
      Reads clean (.operand .lambda)
        [Node.branch .lambda (s.current.span.through body.span) [parameters, body]] s s₂
  | macroCall {values : List Node} {s s' : State}
      (hsigil : s.kind.operandForm? = some .macroCall) (hname : s.advanced.kind = .identifier)
      (hvalues :
        Reads clean (.list .leftParen .rightParen true .expression) values s.advanced.advanced s') :
      Reads clean (.operand .macroCall)
        [⟨.macroCall, s.advanced.leaf .identifier :: values, s'.spanFrom s.current.span.start,
          some s.current.text⟩] s s'
  | awaitExpr {operand : Node} {s s' : State} (hkind : s.kind = .keyword .awaitKw)
      (hoperand : Reads clean (.expression .unary) [operand] s.advanced s') :
      Reads clean (.operand .awaitExpr)
        [Node.branch .awaitExpr (s.current.span.through operand.span) [operand]] s s'
  | bang {operand : Node} {s s' : State} (hkind : s.kind.operandForm? = some .bang)
      (hoperand : Reads clean (.expression .unary) [operand] s.advanced s') :
      Reads clean (.operand .bang)
        [⟨.unaryBang, [operand], s.current.span.through operand.span, some s.current.text⟩] s s'
  | lexicalError {e : LexicalError} {s : State} (hkind : s.kind = .error e) (herror : clean = false) :
      Reads clean (.operand .lexicalError) [Node.error s.current.span []] s
        (s.advanced.reported (.ofError ⟨Cause.ofLexical e s.current.text, s.current.span⟩))
  | operation {next : BindingPower} {left right : Node} {form : OperatorForm} {s s' : State}
      (hform : form ≠ .subscript) (hkind : s.kind.operatorForm? = some (next, form))
      (hright : Reads clean (.expression (form.rightPower next)) [right] s.advanced.pastNewlines s') :
      Reads clean (.continuation next left form)
        [⟨form.nodeKind, [left, right], left.span.through right.span,
          form.literal? s.current.text⟩] s s'
  | subscript {next : BindingPower} {left index : Node} {s s₁ : State} (hkind : s.kind = .leftBracket)
      (hindex : Reads clean (.expression .lowest) [index]
        (s.advanced.opened .rightBracket true).pastNewlines s₁)
      (hclosing : s₁.pastNewlines.kind = .rightBracket) :
      Reads clean (.continuation next left .subscript)
        [Node.branch .subscript (left.span.through s₁.pastNewlines.current.span) [left, index]] s
        s₁.pastNewlines.advanced.closed
  | identifier {s : State} (hkind : s.kind = .identifier) :
      Reads clean .name [s.leaf .identifier] s s.advanced
  | entry {value : Node} {s s' : State} (hkind : s.kind = .string) (hcolon : s.advanced.kind = .colon)
      (hvalue : Reads clean (.expression .lowest) [value] s.advanced.advanced.pastNewlines s') :
      Reads clean .entry
        [Node.branch .keyValuePair (s.current.span.through value.span) [s.leaf .stringLit, value]] s s'
  | emptyList {opener closer : TokenKind} {expressionList : Bool} {item : Item} {s : State}
      (hopener : s.kind = opener)
      (hcloser : (s.advanced.opened closer expressionList).pastNewlines.kind = closer) :
      Reads clean (.list opener closer expressionList item) [] s
        (s.advanced.opened closer expressionList).pastNewlines.advanced.closed
  | items {opener closer : TokenKind} {expressionList : Bool} {item : Item} {first : Node}
      {rest : List Node} {s s₁ s₂ : State} (hopener : s.kind = opener)
      (hfirst : Reads clean item.part [first] (s.advanced.opened closer expressionList).pastNewlines s₁)
      (hrest : Reads clean (.more item) rest s₁.pastNewlines s₂) (hcloser : s₂.kind = closer) :
      Reads clean (.list opener closer expressionList item) (first :: rest) s s₂.advanced.closed
  | noMore {item : Item} {s : State} (hkind : s.kind ≠ .comma) : Reads clean (.more item) [] s s
  | more {item : Item} {next : Node} {rest : List Node} {s s₁ s₂ : State} (hkind : s.kind = .comma)
      (hnext : Reads clean item.part [next] s.advanced.pastNewlines s₁)
      (hrest : Reads clean (.more item) rest s₁.pastNewlines s₂) :
      Reads clean (.more item) (next :: rest) s s₂
  | parameters {names : List Node} {s s' : State}
      (hnames : Reads clean (.list .leftParen .rightParen false .name) names s s') :
      Reads clean .parameters
        [Node.branch .parameterList (s'.spanFrom s.current.span.start) names] s s'
  | block {body : List Node} {s s₁ : State} (hdepth : s.depth < nestingLimit)
      (hopener : s.kind = .leftBrace)
      (hbody : Reads clean (.statements true) body (s.entered.advanced.opened .rightBrace false) s₁)
      (hclosing : s₁.kind = .rightBrace) :
      Reads clean .block [Node.branch .block (s.current.span.through s₁.current.span) body] s
        (s₁.closed.advanced.leaving s.depth)
  /-- A block that the file ends in. -/
  | openBlock {body : List Node} {s s₁ : State} (hdepth : s.depth < nestingLimit)
      (hopener : s.kind = .leftBrace)
      (hbody : Reads clean (.statements true) body (s.entered.advanced.opened .rightBrace false) s₁)
      (hclosing : s₁.kind ≠ .rightBrace) (herror : clean = false) :
      Reads clean .block [Node.error (s₁.spanFrom s.current.span.start) body] s
        ((s₁.closed.reported (.ofError ⟨.unterminatedBlock s.current.span.start.line,
          s.current.span⟩)).leaving s.depth)
  | noStatements {inBlock : Bool} {s : State} (hend : Parser.atListEnd inBlock s.pastSeparators) :
      Reads clean (.statements inBlock) [] s s.pastSeparators
  | whole {inBlock : Bool} {node : Node} {rest : List Node} {s s₁ s₂ : State}
      (hmore : Parser.atListEnd inBlock s.pastSeparators = false)
      (hstatement : Reads clean .statement [node] s.pastSeparators s₁)
      (hseparated : s₁.kind.isSeparator ∨ Parser.atListEnd inBlock s₁)
      (hrest : Reads clean (.statements inBlock) rest s₁ s₂) :
      Reads clean (.statements inBlock) (node :: rest) s s₂
  /-- A whole statement that runs into something else on its line. -/
  | joined {inBlock : Bool} {node : Node} {rest : List Node} {s s₁ s₂ s₃ : State}
      (hmore : Parser.atListEnd inBlock s.pastSeparators = false)
      (hstatement : Reads clean .statement [node] s.pastSeparators s₁)
      (hseparated : ¬(s₁.kind.isSeparator ∨ Parser.atListEnd inBlock s₁))
      (hrecovered : s₂ = (s₁.reported (.ofError s₁.missingSeparator)).recovered s₁.mark inBlock)
      (herror : clean = false)
      (hrest : Reads clean (.statements inBlock) rest s₂ s₃) :
      Reads clean (.statements inBlock) (node :: Node.error (s₂.spanSince s₁.mark) [] :: rest) s s₃
  /-- A statement that fails. -/
  | broken {inBlock : Bool} {levels : Nat} {e : SyntaxError} {rest : List Node} {s s₁ s₂ s₃ : State}
      (hmore : Parser.atListEnd inBlock s.pastSeparators = false)
      (hstatement : Parser.statementIn ⟨Parser.expressionAt levels, Parser.blockAt levels⟩
        s.pastSeparators = .error e s₁)
      (hrecovered : s₂ = (s₁.reported (.ofError e)).recovered s.pastSeparators.mark inBlock)
      (herror : clean = false)
      (hrest : Reads clean (.statements inBlock) rest s₂ s₃) :
      Reads clean (.statements inBlock) (Node.error (s₂.spanSince s.pastSeparators.mark) [] :: rest) s s₃
  | statement {node : Node} {s s' : State} (hform : Reads clean s.statementPart [node] s.begun s') :
      Reads clean .statement [node] s s'
  | bare {value : Node} {s s' : State} (hvalue : Reads clean (.expression .assignment) [value] s s')
      (hkind : Parser.assignmentKind? s'.kind = none) :
      Reads clean .assignment [Node.branch .expressionStmt value.span [value]] s s'
  | assign {kind : NodeKind} {target value : Node} {s s₁ s₂ : State}
      (htarget : Reads clean (.expression .assignment) [target] s s₁)
      (hkind : Parser.assignmentKind? s₁.kind = some kind)
      (hvalue : Reads clean (.expression .assignment) [value] s₁.advanced s₂)
      (hvalid : Parser.isValidTarget kind target || target.isError) :
      Reads clean .assignment
        [⟨kind, [target, value], target.span.through value.span,
          if kind = .compoundAssign then some s₁.current.text else none⟩] s s₂
  | misassign {kind : NodeKind} {target value : Node} {s s₁ s₂ : State}
      (htarget : Reads clean (.expression .assignment) [target] s s₁)
      (hkind : Parser.assignmentKind? s₁.kind = some kind)
      (hvalue : Reads clean (.expression .assignment) [value] s₁.advanced s₂)
      (hvalid : (Parser.isValidTarget kind target || target.isError) = false)
      (herror : clean = false) :
      Reads clean .assignment
        [⟨kind, [target.errorWrapping, value], target.span.through value.span,
          if kind = .compoundAssign then some s₁.current.text else none⟩] s
        (s₂.reported (.ofError ⟨.invalidTarget target.kind.name, target.span⟩))
  | functionDecl {isAsync : Bool} {parameters body : Node} {s s₁ s₂ s₃ : State}
      (hwords : FunctionWords s isAsync s₁) (hname : s₁.kind = .identifier)
      (hparameters : Reads clean .parameters [parameters] s₁.advanced s₂)
      (hbody : Reads clean .block [body] s₂ s₃) :
      Reads clean (.form .functionDecl)
        [⟨.functionDecl, [s₁.leaf .identifier, parameters, body],
          s₃.spanFrom s.current.span.start, if isAsync then some "async" else none⟩] s s₃
  | macroDecl {parameters body : Node} {s s₁ s₂ : State} (hkind : s.kind = .keyword .macroKw)
      (hname : s.advanced.kind = .identifier)
      (hparameters : Reads clean .parameters [parameters] s.advanced.advanced s₁)
      (hbody : Reads clean .block [body] s₁ s₂) :
      Reads clean (.form .macroDecl)
        [Node.branch .macroDecl (s.current.span.through body.span)
          [s.advanced.leaf .identifier, parameters, body]] s s₂
  | structDecl {members : List Node} {s s₁ : State} (hkind : s.kind = .keyword .structKw)
      (hname : s.advanced.kind = .identifier) (hopener : s.advanced.advanced.kind = .leftBrace)
      (hmembers : Reads clean (.members false) members
        (s.advanced.advanced.advanced.opened .rightBrace false) s₁)
      (hclosing : s₁.kind = .rightBrace) :
      Reads clean (.form .structDecl)
        [Node.branch .structDecl (s.current.span.through s₁.current.span)
          (s.advanced.leaf .identifier :: members)] s s₁.closed.advanced
  | noMembers {seenMethod : Bool} {s : State} (hkind : s.pastSeparators.kind = .rightBrace) :
      Reads clean (.members seenMethod) [] s s.pastSeparators
  | members {seenMethod isMethod : Bool} {node : Node} {rest : List Node} {s s₁ s₂ : State}
      (hmember : Reads clean (.member seenMethod isMethod) [node] s.pastSeparators s₁)
      (hend : s₁.atStatementEnd)
      (hrest : Reads clean (.members (seenMethod || isMethod)) rest s₁ s₂) :
      Reads clean (.members seenMethod) (node :: rest) s s₂
  | method {seenMethod : Bool} {node : Node} {s s' : State}
      (hkind : s.kind = .keyword .fnKw ∨ s.kind = .keyword .asyncKw)
      (hform : Reads clean (.form .functionDecl) [node] s s') :
      Reads clean (.member seenMethod true) [node] s s'
  | earlyField {node : Node} {s s' : State} (hfield : Reads clean .field [node] s s') :
      Reads clean (.member false false) [node] s s'
  | lateField {node : Node} {s s' : State} (hfield : Reads clean .field [node] s s')
      (herror : clean = false) :
      Reads clean (.member true false) [node.errorWrapping] s
        (s'.reported (.ofError ⟨.fieldAfterMethod (node.name?.getD ""), node.span⟩))
  | field {value : Node} {s s' : State} (hkind : s.kind = .identifier)
      (hassign : s.advanced.kind = .operator .assign)
      (hvalue : Reads clean (.expression .lowest) [value] s.advanced.advanced s') :
      Reads clean .field
        [Node.branch .structField (s.current.span.through value.span) [s.leaf .identifier, value]] s s'
  | importPath {path : Node} {s s' : State} (hkind : s.kind = .keyword .useKw)
      (hpath : Reads clean .path [path] s.advanced s') (has : s'.kind ≠ .keyword .asKw) :
      Reads clean (.form .importStmt)
        [Node.branch .importStmt (s'.spanFrom s.current.span.start) [path]] s s'
  | importAs {path : Node} {s s₁ : State} (hkind : s.kind = .keyword .useKw)
      (hpath : Reads clean .path [path] s.advanced s₁) (has : s₁.kind = .keyword .asKw)
      (hname : s₁.advanced.kind = .identifier) :
      Reads clean (.form .importStmt)
        [Node.branch .importStmt (s₁.advanced.advanced.spanFrom s.current.span.start)
          [path, s₁.advanced.leaf .identifier]] s s₁.advanced.advanced
  | importNames {names : List Node} {path : Node} {s s₁ s₂ : State}
      (hkind : s.kind = .keyword .useKw)
      (hnames : Reads clean (.list .leftBrace .rightBrace false .name) names s.advanced s₁)
      (hsome : names ≠ []) (hfrom : s₁.kind = .keyword .fromKw)
      (hpath : Reads clean .path [path] s₁.advanced s₂) :
      Reads clean (.form .importStmt)
        [Node.branch .importStmt (s₂.spanFrom s.current.span.start) (names ++ [path])] s s₂
  | knownPath {parts : List Node} {s s' : State} (hkind : s.kind = .identifier)
      (hcolon : s.advanced.kind = .colon)
      (hparts : Reads clean .segments parts s.advanced.advanced s')
      (hscheme : importSchemes.contains s.current.text) :
      Reads clean .path
        [⟨.importPath, parts, s'.spanFrom s.current.span.start, some s.current.text⟩] s s'
  | unknownPath {parts : List Node} {s s' : State} (hkind : s.kind = .identifier)
      (hcolon : s.advanced.kind = .colon)
      (hparts : Reads clean .segments parts s.advanced.advanced s')
      (hscheme : importSchemes.contains s.current.text = false) (herror : clean = false) :
      Reads clean .path
        [Node.errorWrapping
          ⟨.importPath, parts, s'.spanFrom s.current.span.start, some s.current.text⟩] s
        (s'.reported (.ofError ⟨.unknownScheme s.current.text, s.current.span⟩))
  | address {s : State} (hkind : s.kind = .string) :
      Reads clean .segments [s.leaf .stringLit] s s.advanced
  | segments {rest : List Node} {s s' : State} (hkind : s.kind = .identifier)
      (hrest : Reads clean .moreSegments rest s.advanced s') :
      Reads clean .segments (s.leaf .identifier :: rest) s s'
  | noMoreSegments {s : State} (hkind : s.kind ≠ .dot) : Reads clean .moreSegments [] s s
  | moreSegments {rest : List Node} {s s' : State} (hkind : s.kind = .dot)
      (hname : s.advanced.kind = .identifier)
      (hrest : Reads clean .moreSegments rest s.advanced.advanced s') :
      Reads clean .moreSegments (s.advanced.leaf .identifier :: rest) s s'
  | forStmt {condition body : Node} {s s₁ s₂ : State} (hkind : s.kind = .keyword .forKw)
      (hcondition : Reads clean (.expression .lowest) [condition] s.advanced s₁)
      (hbody : Reads clean .block [body] s₁ s₂) :
      Reads clean (.form .forStmt)
        [Node.branch .forStmt (s.current.span.through body.span) [condition, body]] s s₂
  | ifStmt {condition body : Node} {clauses : List Node} {s s₁ s₂ s₃ : State}
      (hkind : s.kind = .keyword .ifKw)
      (hcondition : Reads clean (.expression .lowest) [condition] s.advanced s₁)
      (hbody : Reads clean .block [body] s₁ s₂) (hclauses : Reads clean (.clauses false) clauses s₂ s₃) :
      Reads clean (.form .ifStmt)
        [Node.branch .ifStmt (s₃.spanFrom s.current.span.start) (condition :: body :: clauses)] s s₃
  | noClauses {seenElse : Bool} {s : State} (hclause : Parser.clauseKind? s.kindPastNewlines = none) :
      Reads clean (.clauses seenElse) [] s s
  | clauses {isElse : Bool} {node : Node} {rest : List Node} {s s₁ s₂ : State}
      (hclause : Parser.clauseKind? s.kindPastNewlines = some isElse)
      (hnode : Reads clean (.clause isElse) [node] s.pastNewlines s₁)
      (hrest : Reads clean (.clauses isElse) rest s₁ s₂) :
      Reads clean (.clauses false) (node :: rest) s s₂
  | lateClause {isElse : Bool} {node : Node} {rest : List Node} {s s₁ s₂ : State}
      (hclause : Parser.clauseKind? s.kindPastNewlines = some isElse)
      (hnode : Reads clean (.clause isElse) [node] s.pastNewlines s₁)
      (hrest : Reads clean (.clauses true) rest
        (s₁.reported (.ofError ⟨if isElse then .duplicateElse else .elifAfterElse,
          s.pastNewlines.current.span⟩)) s₂)
      (herror : clean = false) :
      Reads clean (.clauses true) (node.errorWrapping :: rest) s s₂
  | elseClause {body : Node} {s s' : State} (hkind : s.kind = .keyword .elseKw)
      (hbody : Reads clean .block [body] s.advanced s') :
      Reads clean (.clause true)
        [Node.branch .elseClause (s.current.span.through body.span) [body]] s s'
  | elifClause {condition body : Node} {s s₁ s₂ : State} (hkind : s.kind = .keyword .elifKw)
      (hcondition : Reads clean (.expression .lowest) [condition] s.advanced s₁)
      (hbody : Reads clean .block [body] s₁ s₂) :
      Reads clean (.clause false)
        [Node.branch .elifClause (s.current.span.through body.span) [condition, body]] s s₂
  | bareReturn {s : State} (hkind : s.kind = .keyword .returnKw) (hend : s.advanced.atStatementEnd) :
      Reads clean (.form .returnStmt) [Node.branch .returnStmt s.current.span []] s s.advanced
  | returnStmt {value : Node} {s s' : State} (hkind : s.kind = .keyword .returnKw)
      (hend : s.advanced.atStatementEnd = false)
      (hvalue : Reads clean (.expression .lowest) [value] s.advanced s') :
      Reads clean (.form .returnStmt)
        [Node.branch .returnStmt (s.current.span.through value.span) [value]] s s'

namespace State

theorem advances_begun (s : State) : s.Advances s.begun :=
  s.advances_logged _

theorem advances_recovered (s : State) (mark : Mark) (inBlock : Bool) :
    s.Advances (s.recovered mark inBlock) :=
  Parser.Forward.advances_of_ok _ (Parser.run_recover mark inBlock s)

theorem advances_reported_recovered (s : State) (d : Diagnostic) (mark : Mark) (inBlock : Bool) :
    s.Advances ((s.reported d).recovered mark inBlock) :=
  (s.advances_reported d).trans (advances_recovered _ mark inBlock)

theorem advances_advanced_twice (s : State) : s.Advances s.advanced.advanced :=
  s.advances_advanced.trans s.advanced.advances_advanced

theorem advances_advanced_pastNewlines (s : State) : s.Advances s.advanced.pastNewlines :=
  s.advances_advanced.trans s.advanced.advances_pastNewlines

theorem advances_pastNewlines_advanced (s : State) : s.Advances s.pastNewlines.advanced :=
  s.advances_pastNewlines.trans s.pastNewlines.advances_advanced

theorem Advances.bracket {s s' : State} {closer : TokenKind} {expressionList : Bool}
    (h : (s.advanced.opened closer expressionList).Advances s') : s.Advances s'.closed :=
  s.advances_advanced.trans h.closed

theorem Advances.bracketLines {s s' : State} {closer : TokenKind} {expressionList : Bool}
    (h : (s.advanced.opened closer expressionList).pastNewlines.Advances s') :
    s.Advances s'.closed :=
  ((State.advances_pastNewlines _).trans h).bracket

end State

theorem FunctionWords.advances {s s' : State} {isAsync : Bool} (h : FunctionWords s isAsync s') :
    s.Advances s' := by
  cases h with
  | plain => exact s.advances_advanced
  | asyncFirst => exact s.advances_advanced_twice
  | asyncLast => exact s.advances_advanced_twice

theorem Reads.advances {clean : Bool} {part : Part} {nodes : List Node} {s s' : State}
    (h : Reads clean part nodes s s') : s.Advances s' := by
  induction h with
  | @gap power s =>
      exact (s.advances_entered.trans (s.entered.advances_reported _)).leaving
  | @expression power form left node s s₁ s₂ _ _ _ _ hleft hclimb =>
      exact (s.advances_entered.trans (hleft.trans hclimb)).leaving
  | climbStop => exact .refl _
  | @climbFold power next form left folded node s s₁ s₂ _ _ _ _ hfolded hclimb =>
      exact s.advances_entered.trans (hfolded.trans hclimb)
  | literal => exact State.advances_advanced _
  | name => exact State.advances_advanced _
  | call _ _ hvalues => exact (State.advances_advanced _).trans hvalues
  | array _ helements => exact helements
  | object _ hentries => exact hentries
  | lambda _ _ _ hparameters hbody =>
      exact (State.advances_advanced _).trans (hparameters.trans hbody)
  | macroCall _ _ _ hvalues => exact (State.advances_advanced_twice _).trans hvalues
  | awaitExpr _ _ hoperand => exact (State.advances_advanced _).trans hoperand
  | bang _ _ hoperand => exact (State.advances_advanced _).trans hoperand
  | lexicalError => exact (State.advances_advanced _).trans (State.advances_reported _ _)
  | operation _ _ _ hright => exact (State.advances_advanced_pastNewlines _).trans hright
  | subscript _ _ _ hindex =>
      exact (hindex.trans (State.advances_pastNewlines_advanced _)).bracketLines
  | identifier => exact State.advances_advanced _
  | entry _ _ _ hvalue =>
      exact (State.advances_advanced _).trans ((State.advances_advanced_pastNewlines _).trans hvalue)
  | emptyList => exact (State.advances_advanced _).bracketLines
  | @items opener closer expressionList item first rest s s₁ s₂ _ _ _ _ hfirst hrest =>
      have hinside := s₁.advances_pastNewlines.trans (hrest.trans s₂.advances_advanced)
      exact (hfirst.trans hinside).bracketLines
  | noMore => exact .refl _
  | @more item next rest s s₁ s₂ _ _ _ hnext hrest =>
      exact s.advances_advanced_pastNewlines.trans
        (hnext.trans (s₁.advances_pastNewlines.trans hrest))
  | parameters _ hnames => exact hnames
  | @block body s s₁ _ _ _ _ hbody =>
      have hclosed : s.entered.Advances s₁.closed := State.Advances.bracket hbody
      exact (s.advances_entered.trans (hclosed.trans s₁.closed.advances_advanced)).leaving
  | @openBlock body s s₁ _ _ _ _ _ hbody =>
      have hclosed : s.entered.Advances s₁.closed := State.Advances.bracket hbody
      exact (s.advances_entered.trans (hclosed.trans (s₁.closed.advances_reported _))).leaving
  | noStatements => exact State.advances_pastSeparators _
  | whole _ _ _ _ hstatement hrest =>
      exact (State.advances_pastSeparators _).trans (hstatement.trans hrest)
  | joined _ _ _ hrecovered _ _ hstatement hrest =>
      subst hrecovered
      have hskipped := (State.advances_reported_recovered _ _ _ _).trans hrest
      exact (State.advances_pastSeparators _).trans (hstatement.trans hskipped)
  | broken _ hstatement hrecovered _ _ hrest =>
      subst hrecovered
      have hfailed := Parser.Forward.advances_of_error _ hstatement
      have hskipped := (State.advances_reported_recovered _ _ _ _).trans hrest
      exact (State.advances_pastSeparators _).trans (hfailed.trans hskipped)
  | statement _ hform => exact (State.advances_begun _).trans hform
  | bare _ _ hvalue => exact hvalue
  | assign _ _ _ _ htarget hvalue =>
      exact htarget.trans ((State.advances_advanced _).trans hvalue)
  | misassign _ _ _ _ _ htarget hvalue =>
      exact htarget.trans
        ((State.advances_advanced _).trans (hvalue.trans (State.advances_reported _ _)))
  | functionDecl hwords _ _ _ hparameters hbody =>
      exact hwords.advances.trans
        ((State.advances_advanced _).trans (hparameters.trans hbody))
  | macroDecl _ _ _ _ hparameters hbody =>
      exact (State.advances_advanced_twice _).trans (hparameters.trans hbody)
  | @structDecl members s s₁ _ _ _ _ _ hmembers =>
      have hclosed : s.advanced.advanced.Advances s₁.closed := State.Advances.bracket hmembers
      exact s.advances_advanced_twice.trans (hclosed.trans s₁.closed.advances_advanced)
  | noMembers => exact State.advances_pastSeparators _
  | members _ _ _ hmember hrest =>
      exact (State.advances_pastSeparators _).trans (hmember.trans hrest)
  | method _ _ hform => exact hform
  | earlyField _ hfield => exact hfield
  | lateField _ _ hfield => exact hfield.trans (State.advances_reported _ _)
  | field _ _ _ hvalue => exact (State.advances_advanced_twice _).trans hvalue
  | importPath _ _ _ hpath => exact (State.advances_advanced _).trans hpath
  | importAs _ _ _ _ hpath =>
      exact (State.advances_advanced _).trans (hpath.trans (State.advances_advanced_twice _))
  | importNames _ _ _ _ _ hnames hpath =>
      exact (State.advances_advanced _).trans
        (hnames.trans ((State.advances_advanced _).trans hpath))
  | knownPath _ _ _ _ hparts => exact (State.advances_advanced_twice _).trans hparts
  | unknownPath _ _ _ _ _ hparts =>
      exact (State.advances_advanced_twice _).trans (hparts.trans (State.advances_reported _ _))
  | address => exact State.advances_advanced _
  | segments _ _ hrest => exact (State.advances_advanced _).trans hrest
  | noMoreSegments => exact .refl _
  | moreSegments _ _ _ hrest => exact (State.advances_advanced_twice _).trans hrest
  | forStmt _ _ _ hcondition hbody =>
      exact (State.advances_advanced _).trans (hcondition.trans hbody)
  | ifStmt _ _ _ _ hcondition hbody hclauses =>
      exact (State.advances_advanced _).trans (hcondition.trans (hbody.trans hclauses))
  | noClauses => exact .refl _
  | clauses _ _ _ hnode hrest => exact (State.advances_pastNewlines _).trans (hnode.trans hrest)
  | lateClause _ _ _ _ hnode hrest =>
      exact (State.advances_pastNewlines _).trans
        (hnode.trans ((State.advances_reported _ _).trans hrest))
  | elseClause _ _ hbody => exact (State.advances_advanced _).trans hbody
  | elifClause _ _ _ hcondition hbody =>
      exact (State.advances_advanced _).trans (hcondition.trans hbody)
  | bareReturn => exact State.advances_advanced _
  | returnStmt _ _ _ hvalue => exact (State.advances_advanced _).trans hvalue

theorem Reads.atListEnd {clean : Bool} {part : Part} {nodes : List Node} {s s' : State}
    (h : Reads clean part nodes s s') : ∀ inBlock, part = .statements inBlock →
      Parser.atListEnd inBlock s' := by
  induction h with
  | noStatements hend =>
      rintro _ ⟨⟩
      exact hend
  | whole _ _ _ _ _ ih =>
      rintro _ ⟨⟩
      exact ih _ rfl
  | joined _ _ _ _ _ _ _ ih =>
      rintro _ ⟨⟩
      exact ih _ rfl
  | broken _ _ _ _ _ ih =>
      rintro _ ⟨⟩
      exact ih _ rfl
  | _ =>
      intro _ hpart
      cases hpart

end ScriptSyntax
