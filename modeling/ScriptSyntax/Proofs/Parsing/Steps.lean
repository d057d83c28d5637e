import ScriptSyntax.Proofs.Parsing.Reading

/-!
When the forms succeed.  Each lemma is about one form: if the forms inside of it give their nodes, it gives
its own, whatever its readers of expressions and blocks are.
-/

namespace ScriptSyntax.Parser

variable {inner : Inner} {s s₁ s₂ s₃ s' : State} {nodes : List Node}

/-- The step gives the only node of a list. -/
def Gives (p : Parser Node) (nodes : List Node) (s s' : State) : Prop :=
  ∃ node, nodes = [node] ∧ p s = .ok node s'

theorem gives_iff {p : Parser Node} {node : Node} :
    p.Gives [node] s s' ↔ p s = .ok node s' := by
  constructor
  · rintro ⟨_, ⟨⟩, hrun⟩
    exact hrun
  · intro hrun
    exact ⟨node, rfl, hrun⟩

/-- The step gives a list and the span from the next token to the last one consumed. -/
def GivesList (p : Parser (List Node × Span)) (nodes : List Node) (s s' : State) : Prop :=
  p s = .ok (nodes, s'.spanFrom s.current.span.start) s'

/-! ### Lists -/

section
variable {reader : Parser Node} {next : Node} {rest : List Node}

theorem bracketed_ok {opener closer : TokenKind} {expressionList : Bool}
    (hcloser? : opener.closer? = some closer) (hopener : s.kind = opener)
    (hitems : itemsBefore closer reader (s.advanced.opened closer expressionList).pastNewlines =
      .ok nodes s₁)
    (hcloser : s₁.kind = closer) :
    (bracketed opener closer expressionList reader).GivesList nodes s s₁.advanced.closed := by
  have hend : s₁.kind ≠ .endOfFile := by
    rw [hcloser]
    rintro rfl
    unfold TokenKind.closer? at hcloser?
    split at hcloser? <;> cases hcloser?
  have hspan : s.current.span.through s₁.current.span =
      s₁.advanced.closed.spanFrom s.current.span.start := by
    unfold Span.through State.spanFrom
    rw [← previousEnd_advanced hend]
    rfl
  rw [GivesList, bracketed_eq, ← hspan]
  simp only [bind_eq_ok, expect_eq_ok, delimited_eq_ok, skipNewlines_eq_ok, pure_eq_ok]
  exact ⟨_, _, ⟨hopener, rfl, rfl⟩, _, ⟨(), _, rfl, _, _, hitems, _, _, ⟨hcloser, rfl, rfl⟩, rfl, rfl⟩,
    rfl⟩

theorem itemsBefore_ok_nil {closer : TokenKind} (hcloser : s.kind = closer) :
    itemsBefore closer reader s = .ok [] s := by
  simp only [itemsBefore, bind_eq_ok, get_eq_ok, run_ite]
  refine ⟨_, _, ⟨rfl, rfl⟩, ?_⟩
  rw [if_pos hcloser]
  rfl

theorem itemsBefore_ok_cons {closer : TokenKind} (hcloser : s.kind ≠ closer)
    (hnext : reader s = .ok next s₁) (hrest : moreItems reader s₁.pastNewlines = .ok rest s₂) :
    itemsBefore closer reader s = .ok (next :: rest) s₂ := by
  simp only [itemsBefore, bind_eq_ok, get_eq_ok, run_ite]
  refine ⟨_, _, ⟨rfl, rfl⟩, ?_⟩
  rw [if_neg hcloser]
  simp only [items, bind_eq_ok, skipNewlines_eq_ok, get_eq_ok]
  refine ⟨next, s₁, hnext, (), _, rfl, _, _, ⟨rfl, rfl⟩, ?_⟩
  rw [itemsWithin_eq_map, map_eq_pure_bind]
  exact bind_eq_ok.mpr ⟨rest, s₂, hrest, rfl⟩

theorem moreItems_ok_nil [Forward reader] (hkind : s.kind ≠ .comma) :
    moreItems reader s = .ok [] s := by
  rw [moreItems_eq]
  simp only [bind_eq_ok, get_eq_ok, run_ite]
  refine ⟨_, _, ⟨rfl, rfl⟩, ?_⟩
  rw [if_neg hkind]
  rfl

theorem moreItems_ok_cons [Forward reader] (hkind : s.kind = .comma)
    (hnext : reader s.advanced.pastNewlines = .ok next s₁)
    (hrest : moreItems reader s₁.pastNewlines = .ok rest s₂) :
    moreItems reader s = .ok (next :: rest) s₂ := by
  rw [moreItems_eq]
  simp only [bind_eq_ok, get_eq_ok, run_ite]
  refine ⟨_, _, ⟨rfl, rfl⟩, ?_⟩
  rw [if_pos hkind]
  simp only [bind_eq_ok, advance_eq_ok, skipNewlines_eq_ok, pure_eq_ok]
  exact ⟨_, _, ⟨rfl, rfl⟩, (), _, rfl, _, _, hnext, (), _, rfl, _, _, hrest, rfl, rfl⟩

end

/-! ### Operands -/

theorem gives_literal {kind : NodeKind} (hkind : literalKind? s.kind = some kind) :
    literal.Gives [s.leaf kind] s s.advanced :=
  gives_iff.mpr (literal_eq_ok.mpr ⟨kind, hkind, rfl, rfl⟩)

theorem gives_identifier (hkind : s.kind = .identifier) :
    identifier.Gives [s.leaf .identifier] s s.advanced :=
  gives_iff.mpr (identifier_eq_ok.mpr ⟨hkind, rfl, rfl⟩)

theorem gives_name (hkind : s.kind = .identifier) (hparen : s.advanced.kind ≠ .leftParen) :
    (nameOrCall inner).Gives [s.leaf .identifier] s s.advanced := by
  refine gives_iff.mpr ?_
  simp only [nameOrCall, bind_eq_ok, identifier_eq_ok, get_eq_ok, run_ite]
  refine ⟨_, _, ⟨hkind, rfl, rfl⟩, _, _, ⟨rfl, rfl⟩, ?_⟩
  rw [if_neg hparen]
  rfl

theorem gives_call {values : List Node} (hkind : s.kind = .identifier)
    (hparen : s.advanced.kind = .leftParen) (hvalues : (arguments inner).GivesList values s.advanced s') :
    (nameOrCall inner).Gives
      [Node.branch .functionCall (s'.spanFrom s.current.span.start) (s.leaf .identifier :: values)] s s' := by
  refine gives_iff.mpr ?_
  simp only [nameOrCall, bind_eq_ok, identifier_eq_ok, get_eq_ok, run_ite]
  refine ⟨_, _, ⟨hkind, rfl, rfl⟩, _, _, ⟨rfl, rfl⟩, ?_⟩
  rw [if_pos hparen]
  exact bind_eq_ok.mpr ⟨_, _, hvalues, rfl⟩

theorem gives_macroCall {values : List Node} (hname : s.advanced.kind = .identifier)
    (hparen : s.advanced.advanced.kind = .leftParen)
    (hvalues : (arguments inner).GivesList values s.advanced.advanced s') :
    (macroCall inner).Gives
      [⟨.macroCall, s.advanced.leaf .identifier :: values, s'.spanFrom s.current.span.start,
        some s.current.text⟩] s s' := by
  refine gives_iff.mpr ?_
  simp only [macroCall, bind_eq_ok, advance_eq_ok, identifier_eq_ok, get_eq_ok, run_ite]
  refine ⟨_, _, ⟨rfl, rfl⟩, _, _, ⟨hname, rfl, rfl⟩, _, _, ⟨rfl, rfl⟩, ?_⟩
  rw [if_pos hparen]
  exact bind_eq_ok.mpr ⟨_, _, hvalues, rfl⟩

theorem gives_array
    (helements : (bracketed .leftBracket .rightBracket true (inner.expression .lowest)).GivesList nodes s s') :
    (array inner).Gives [Node.branch .arrayLit (s'.spanFrom s.current.span.start) nodes] s s' :=
  gives_iff.mpr (bind_eq_ok.mpr ⟨_, _, helements, rfl⟩)

theorem gives_object
    (hentries : (bracketed .leftBrace .rightBrace true (keyValuePair inner)).GivesList nodes s s') :
    (object inner).Gives [Node.branch .objectLit (s'.spanFrom s.current.span.start) nodes] s s' :=
  gives_iff.mpr (bind_eq_ok.mpr ⟨_, _, hentries, rfl⟩)

theorem gives_parameterList
    (hnames : (bracketed .leftParen .rightParen false identifier).GivesList nodes s s') :
    parameterList.Gives [Node.branch .parameterList (s'.spanFrom s.current.span.start) nodes] s s' :=
  gives_iff.mpr (bind_eq_ok.mpr ⟨_, _, hnames, rfl⟩)

theorem gives_keyValuePair {value : Node} (hkind : s.kind = .string) (hcolon : s.advanced.kind = .colon)
    (hvalue : (inner.expression .lowest).Gives [value] s.advanced.advanced.pastNewlines s') :
    (keyValuePair inner).Gives
      [Node.branch .keyValuePair (s.current.span.through value.span) [s.leaf .stringLit, value]] s s' := by
  have hliteral : literalKind? s.kind = some .stringLit := by
    rw [hkind]
    rfl
  rw [gives_iff] at hvalue ⊢
  simp only [keyValuePair, bind_eq_ok, get_eq_ok, run_ite]
  refine ⟨_, _, ⟨rfl, rfl⟩, ?_⟩
  rw [if_pos hkind]
  simp only [bind_eq_ok, literal_eq_ok, expect_eq_ok, skipNewlines_eq_ok, pure_eq_ok]
  exact ⟨_, _, ⟨_, hliteral, rfl, rfl⟩, _, _, ⟨hcolon, rfl, rfl⟩, (), _, rfl, _, _, hvalue, rfl, rfl⟩

section
variable {parameters condition body value : Node}

theorem gives_lambda (hparameters : parameterList.Gives [parameters] s.advanced s₁)
    (hbody : inner.block.Gives [body] s₁ s₂) :
    (lambda inner).Gives
      [Node.branch .lambda (s.current.span.through body.span) [parameters, body]] s s₂ := by
  rw [gives_iff] at hparameters hbody ⊢
  simp only [lambda, bind_eq_ok, advance_eq_ok, pure_eq_ok]
  exact ⟨_, _, ⟨rfl, rfl⟩, _, _, hparameters, _, _, hbody, rfl, rfl⟩

theorem gives_awaitExpr (hvalue : (inner.expression .unary).Gives [value] s.advanced s') :
    (awaitExpr inner).Gives
      [Node.branch .awaitExpr (s.current.span.through value.span) [value]] s s' := by
  rw [gives_iff] at hvalue ⊢
  simp only [awaitExpr, bind_eq_ok, advance_eq_ok, pure_eq_ok]
  exact ⟨_, _, ⟨rfl, rfl⟩, _, _, hvalue, rfl, rfl⟩

theorem gives_bang (hvalue : (inner.expression .unary).Gives [value] s.advanced s') :
    (bang inner).Gives
      [⟨.unaryBang, [value], s.current.span.through value.span, some s.current.text⟩] s s' := by
  rw [gives_iff] at hvalue ⊢
  simp only [bang, bind_eq_ok, advance_eq_ok, pure_eq_ok]
  exact ⟨_, _, ⟨rfl, rfl⟩, _, _, hvalue, rfl, rfl⟩

/-! ### Operators -/

theorem gives_operation {next : BindingPower} {left right : Node} {form : OperatorForm}
    (hform : form ≠ .subscript)
    (hright : (inner.expression (form.rightPower next)).Gives [right] s.advanced.pastNewlines s') :
    (continuation inner next left form).Gives
      [⟨form.nodeKind, [left, right], left.span.through right.span, form.literal? s.current.text⟩] s s' := by
  have hrest : rightOperand inner (form.rightPower next) s = .ok (s.current, right) s' := by
    simp only [rightOperand, bind_eq_ok, advance_eq_ok, skipNewlines_eq_ok, pure_eq_ok]
    exact ⟨_, _, ⟨rfl, rfl⟩, (), _, rfl, _, _, gives_iff.mp hright, rfl, rfl⟩
  refine gives_iff.mpr ?_
  cases form with
  | subscript => exact absurd rfl hform
  | binary | membership | range | member => exact bind_eq_ok.mpr ⟨_, _, hrest, rfl⟩

theorem gives_subscript {left index : Node}
    (hindex : (inner.expression .lowest).Gives [index]
      (s.advanced.opened .rightBracket true).pastNewlines s₁)
    (hclosing : s₁.pastNewlines.kind = .rightBracket) :
    (subscript inner left).Gives
      [Node.branch .subscript (left.span.through s₁.pastNewlines.current.span) [left, index]] s
      s₁.pastNewlines.advanced.closed := by
  rw [gives_iff] at hindex ⊢
  simp only [subscript, bind_eq_ok, advance_eq_ok, delimited_eq_ok, skipNewlines_eq_ok, expect_eq_ok,
    pure_eq_ok]
  exact ⟨_, _, ⟨rfl, rfl⟩, _, ⟨(), _, rfl, _, _, hindex, (), _, rfl, _, _, ⟨hclosing, rfl, rfl⟩, rfl,
    rfl⟩, rfl⟩

theorem gives_expressionAt {levels : Nat} {power : BindingPower} {form : OperandForm} {left node : Node}
    (hdepth : s.depth < nestingLimit) (hform : s.kind.operandForm? = some form)
    (hleft : (operand ⟨expressionAt levels, blockAt levels⟩ form).Gives [left] s.entered s₁)
    (hclimb : (climbAt levels power left).Gives [node] s₁ s₂) :
    (expressionAt (levels + 1) power).Gives [node] s (s₂.leaving s.depth) := by
  rw [gives_iff] at hleft hclimb ⊢
  simp only [expressionAt, nested_eq_ok, bind_eq_ok, enterNesting_eq_ok, get_eq_ok]
  refine ⟨s₂, ⟨(), _, ⟨hdepth, rfl⟩, _, _, ⟨rfl, rfl⟩, ?_⟩, rfl⟩
  simp only [State.kind_entered, hform, bind_eq_ok]
  exact ⟨left, s₁, hleft, hclimb⟩

theorem gives_climbAt_stop (levels : Nat) {power : BindingPower} {left : Node}
    (hpending : s.pending power = none) : (climbAt levels power left).Gives [left] s s := by
  refine gives_iff.mpr ?_
  cases levels <;> simp [climbAt, run_bind, run_pendingOperator, hpending]

theorem gives_climbAt_fold {levels : Nat} {power next : BindingPower} {form : OperatorForm}
    {left folded node : Node} (hpending : s.pending power = some (next, form))
    (hdepth : s.depth < nestingLimit)
    (hfolded : (continuation ⟨expressionAt levels, blockAt levels⟩ next left form).Gives [folded]
      s.entered s₁)
    (hclimb : (climbAt levels power folded).Gives [node] s₁ s₂) :
    (climbAt (levels + 1) power left).Gives [node] s s₂ := by
  rw [gives_iff] at hfolded hclimb ⊢
  simp only [climbAt, run_bind (pendingOperator power), run_pendingOperator, hpending, bind_eq_ok,
    enterNesting_eq_ok]
  exact ⟨(), _, ⟨hdepth, rfl⟩, folded, s₁, hfolded, hclimb⟩

/-! ### Statements -/

theorem gives_blockAt {levels : Nat} (hdepth : s.depth < nestingLimit) (hopener : s.kind = .leftBrace)
    (hbody : statementList (statementIn ⟨expressionAt levels, blockAt levels⟩) true
      (s.entered.advanced.opened .rightBrace false) = .ok nodes s₁)
    (hclosing : s₁.kind = .rightBrace) :
    (blockAt (levels + 1)).Gives
      [Node.branch .block (s.current.span.through s₁.current.span) nodes] s
      (s₁.closed.advanced.leaving s.depth) := by
  refine gives_iff.mpr ?_
  simp only [blockAt, nested_eq_ok, bind_eq_ok, enterNesting_eq_ok, blockOf, expect_eq_ok,
    delimited_eq_ok, get_eq_ok, run_ite]
  refine ⟨_, ⟨(), _, ⟨hdepth, rfl⟩, _, _, ⟨hopener, rfl, rfl⟩, _, _, ⟨s₁, hbody, rfl⟩, _, _,
    ⟨rfl, rfl⟩, ?_⟩, rfl⟩
  rw [if_pos (show s₁.closed.kind = .rightBrace from hclosing)]
  rfl

section
variable {reader : Parser Node} [Forward reader] {inBlock : Bool}

theorem statementList_ok_nil (hend : atListEnd inBlock s.pastSeparators) :
    statementList reader inBlock s = .ok [] s.pastSeparators := by
  rw [statementList_eq]
  simp only [bind_eq_ok, skipSeparators_eq_ok, get_eq_ok, run_ite]
  refine ⟨(), _, rfl, _, _, ⟨rfl, rfl⟩, ?_⟩
  rw [if_pos hend]
  rfl

theorem statementList_ok_cons {node : Node} {rest : List Node}
    (hmore : atListEnd inBlock s.pastSeparators = false)
    (hnode : reader s.pastSeparators = .ok node s₁)
    (hseparated : s₁.kind.isSeparator ∨ atListEnd inBlock s₁)
    (hrest : statementList reader inBlock s₁ = .ok rest s₂) :
    statementList reader inBlock s = .ok (node :: rest) s₂ := by
  rw [statementList_eq]
  simp only [bind_eq_ok, skipSeparators_eq_ok, get_eq_ok, run_ite]
  refine ⟨(), _, rfl, _, _, ⟨rfl, rfl⟩, ?_⟩
  rw [if_neg (by simp [hmore])]
  simp only [bind_eq_ok, pure_eq_ok]
  refine ⟨[node], s₁, ?_, rest, s₂, hrest, rfl, rfl⟩
  simp only [statementRound, bind_eq_ok, get_eq_ok, attempt_eq_ok]
  refine ⟨_, _, ⟨rfl, rfl⟩, _, s₁, .inl ⟨node, hnode, rfl⟩, ?_⟩
  simp only [afterAttempt, separated, bind_eq_ok, get_eq_ok, run_ite, pure_eq_ok]
  refine ⟨none, s₁, ⟨_, _, ⟨rfl, rfl⟩, ?_⟩, rfl, rfl⟩
  rw [if_pos hseparated]
  rfl

end

theorem gives_bare (hvalue : (inner.expression .assignment).Gives [value] s s')
    (hkind : assignmentKind? s'.kind = none) :
    (assignmentOrExpression inner).Gives [Node.branch .expressionStmt value.span [value]] s s' := by
  rw [gives_iff] at hvalue ⊢
  simp only [assignmentOrExpression, bind_eq_ok, get_eq_ok]
  refine ⟨_, _, hvalue, _, _, ⟨rfl, rfl⟩, ?_⟩
  simp only [hkind]
  rfl

theorem gives_assign {kind : NodeKind} {target : Node}
    (htarget : (inner.expression .assignment).Gives [target] s s₁)
    (hkind : assignmentKind? s₁.kind = some kind)
    (hvalue : (inner.expression .assignment).Gives [value] s₁.advanced s₂)
    (hvalid : isValidTarget kind target || target.isError) :
    (assignmentOrExpression inner).Gives
      [⟨kind, [target, value], target.span.through value.span,
        if kind = .compoundAssign then some s₁.current.text else none⟩] s s₂ := by
  rw [gives_iff] at htarget hvalue ⊢
  simp only [assignmentOrExpression, bind_eq_ok, get_eq_ok]
  refine ⟨_, _, htarget, _, _, ⟨rfl, rfl⟩, ?_⟩
  simp only [hkind, bind_eq_ok, advance_eq_ok, checkedTarget_eq_ok, pure_eq_ok]
  exact ⟨_, _, ⟨rfl, rfl⟩, _, _, hvalue, _, _, .inl ⟨hvalid, rfl, rfl⟩, rfl, rfl⟩

theorem asyncWords_ok {isAsync : Bool} (h : FunctionWords s isAsync s') :
    ∃ before t, asyncWord s = .ok before t ∧ t.kind = .keyword .fnKw ∧
      laterAsyncWord before t.advanced = .ok isAsync s' := by
  cases h with
  | plain hfn hnext =>
      have hnot : s.kind ≠ .keyword .asyncKw := by simp [hfn]
      exact ⟨false, s, asyncWord_eq_ok.mpr (.inr ⟨hnot, rfl, rfl⟩), hfn,
        asyncWord_eq_ok.mpr (.inr ⟨hnext, rfl, rfl⟩)⟩
  | asyncFirst hasync hfn =>
      exact ⟨true, s.advanced, asyncWord_eq_ok.mpr (.inl ⟨hasync, rfl, rfl⟩), hfn, rfl⟩
  | asyncLast hfn hasync =>
      have hnot : s.kind ≠ .keyword .asyncKw := by simp [hfn]
      exact ⟨false, s, asyncWord_eq_ok.mpr (.inr ⟨hnot, rfl, rfl⟩), hfn,
        asyncWord_eq_ok.mpr (.inl ⟨hasync, rfl, rfl⟩)⟩

theorem gives_functionDecl {isAsync : Bool} (hwords : FunctionWords s isAsync s₁)
    (hname : s₁.kind = .identifier) (hparameters : parameterList.Gives [parameters] s₁.advanced s₂)
    (hbody : inner.block.Gives [body] s₂ s₃) :
    (functionDecl inner).Gives
      [⟨.functionDecl, [s₁.leaf .identifier, parameters, body], s₃.spanFrom s.current.span.start,
        if isAsync then some "async" else none⟩] s s₃ := by
  obtain ⟨before, t, hbefore, hfn, hlater⟩ := asyncWords_ok hwords
  rw [gives_iff] at hparameters hbody ⊢
  rw [functionDecl_eq]
  simp only [bind_eq_ok, get_eq_ok, expect_eq_ok, identifier_eq_ok, pure_eq_ok]
  exact ⟨_, _, ⟨rfl, rfl⟩, before, t, hbefore, _, _, ⟨hfn, rfl, rfl⟩, isAsync, s₁, hlater, _, _,
    ⟨hname, rfl, rfl⟩, _, _, hparameters, _, _, hbody, _, _, ⟨rfl, rfl⟩, rfl, rfl⟩

theorem gives_macroDecl (hname : s.advanced.kind = .identifier)
    (hparameters : parameterList.Gives [parameters] s.advanced.advanced s₁)
    (hbody : inner.block.Gives [body] s₁ s₂) :
    (macroDecl inner).Gives
      [Node.branch .macroDecl (s.current.span.through body.span)
        [s.advanced.leaf .identifier, parameters, body]] s s₂ := by
  rw [gives_iff] at hparameters hbody ⊢
  simp only [macroDecl, bind_eq_ok, advance_eq_ok, identifier_eq_ok, pure_eq_ok]
  exact ⟨_, _, ⟨rfl, rfl⟩, _, _, ⟨hname, rfl, rfl⟩, _, _, hparameters, _, _, hbody, rfl, rfl⟩

theorem gives_structDecl (hname : s.advanced.kind = .identifier)
    (hopener : s.advanced.advanced.kind = .leftBrace)
    (hmembers : moreMembers inner s.advanced.advanced.current.span false
      (s.advanced.advanced.advanced.opened .rightBrace false) = .ok nodes s₁)
    (hclosing : s₁.kind = .rightBrace) :
    (structDecl inner).Gives
      [Node.branch .structDecl (s.current.span.through s₁.current.span)
        (s.advanced.leaf .identifier :: nodes)] s s₁.closed.advanced := by
  refine gives_iff.mpr ?_
  simp only [structDecl, bind_eq_ok, advance_eq_ok, identifier_eq_ok, expect_eq_ok, delimited_eq_ok,
    pure_eq_ok]
  exact ⟨_, _, ⟨rfl, rfl⟩, _, _, ⟨hname, rfl, rfl⟩, _, _, ⟨hopener, rfl, rfl⟩, nodes, _,
    ⟨s₁, bind_eq_ok.mp hmembers, rfl⟩, _, _, ⟨hclosing, rfl, rfl⟩, rfl, rfl⟩

theorem gives_structField (hkind : s.kind = .identifier) (hassign : s.advanced.kind = .operator .assign)
    (hvalue : (inner.expression .lowest).Gives [value] s.advanced.advanced s') :
    (structField inner).Gives
      [Node.branch .structField (s.current.span.through value.span) [s.leaf .identifier, value]] s s' := by
  rw [gives_iff] at hvalue ⊢
  simp only [structField, bind_eq_ok, identifier_eq_ok, expect_eq_ok, pure_eq_ok]
  exact ⟨_, _, ⟨hkind, rfl, rfl⟩, _, _, ⟨hassign, rfl, rfl⟩, _, _, hvalue, rfl, rfl⟩

section
variable {seenMethod isMethod : Bool} {node : Node} {rest : List Node}

theorem structMember_ok_method (hkind : s.kind = .keyword .fnKw ∨ s.kind = .keyword .asyncKw)
    (hnode : (functionDecl inner).Gives [node] s s') :
    structMember inner seenMethod s = .ok (node, true) s' := by
  rw [structMember_eq]
  simp only [bind_eq_ok, get_eq_ok, run_ite]
  refine ⟨_, _, ⟨rfl, rfl⟩, ?_⟩
  rw [if_pos hkind]
  exact bind_eq_ok.mpr ⟨_, _, gives_iff.mp hnode, rfl⟩

theorem structMember_ok_field (hkind : s.kind = .identifier)
    (hnode : (structField inner).Gives [node] s s') :
    structMember inner false s = .ok (node, false) s' := by
  rw [structMember_eq]
  simp only [bind_eq_ok, get_eq_ok, run_ite]
  refine ⟨_, _, ⟨rfl, rfl⟩, ?_⟩
  rw [if_neg (by simp [hkind]), if_pos hkind]
  simp only [bind_eq_ok]
  exact ⟨_, _, gives_iff.mp hnode, _, _, rfl, rfl⟩

variable [Inner.Forward inner] {opener : Span}

theorem moreMembers_ok_nil (hkind : s.pastSeparators.kind = .rightBrace) :
    moreMembers inner opener seenMethod s = .ok [] s.pastSeparators := by
  rw [moreMembers_eq]
  simp only [bind_eq_ok, skipSeparators_eq_ok, get_eq_ok, run_ite]
  refine ⟨(), _, rfl, _, _, ⟨rfl, rfl⟩, ?_⟩
  rw [if_pos hkind]
  rfl

theorem moreMembers_ok_cons (hbrace : s.pastSeparators.kind ≠ .rightBrace)
    (hfile : s.pastSeparators.kind ≠ .endOfFile)
    (hmember : structMember inner seenMethod s.pastSeparators = .ok (node, isMethod) s₁)
    (hend : s₁.atStatementEnd)
    (hrest : moreMembers inner opener (seenMethod || isMethod) s₁ = .ok rest s₂) :
    moreMembers inner opener seenMethod s = .ok (node :: rest) s₂ := by
  rw [moreMembers_eq]
  simp only [bind_eq_ok, skipSeparators_eq_ok, get_eq_ok, run_ite]
  refine ⟨(), _, rfl, _, _, ⟨rfl, rfl⟩, ?_⟩
  rw [if_neg hbrace, if_neg hfile]
  simp only [bind_eq_ok, get_eq_ok, run_ite]
  refine ⟨_, _, hmember, _, _, ⟨rfl, rfl⟩, ?_⟩
  rw [if_pos hend]
  exact bind_eq_ok.mpr ⟨_, _, hrest, rfl⟩

end

/-! ### Imports -/

theorem segments_ok_address (hkind : s.kind = .string) :
    segments s = .ok [s.leaf .stringLit] s.advanced := by
  have hliteral : literalKind? s.kind = some .stringLit := by
    rw [hkind]
    rfl
  simp only [segments, bind_eq_ok, get_eq_ok, run_ite]
  refine ⟨_, _, ⟨rfl, rfl⟩, ?_⟩
  rw [if_pos hkind]
  simp only [bind_eq_ok, literal_eq_ok, pure_eq_ok]
  exact ⟨_, _, ⟨_, hliteral, rfl, rfl⟩, rfl, rfl⟩

theorem segments_ok_names (hkind : s.kind = .identifier)
    (hrest : moreSegments s.advanced = .ok nodes s') :
    segments s = .ok (s.leaf .identifier :: nodes) s' := by
  simp only [segments, bind_eq_ok, get_eq_ok, run_ite]
  refine ⟨_, _, ⟨rfl, rfl⟩, ?_⟩
  rw [if_neg (by simp [hkind])]
  simp only [bind_eq_ok, identifier_eq_ok, get_eq_ok]
  refine ⟨_, _, ⟨hkind, rfl, rfl⟩, _, _, ⟨rfl, rfl⟩, ?_⟩
  rw [segmentsWithin_eq_map, map_eq_pure_bind]
  exact bind_eq_ok.mpr ⟨nodes, s', hrest, rfl⟩

theorem moreSegments_ok_nil (hkind : s.kind ≠ .dot) : moreSegments s = .ok [] s := by
  rw [moreSegments_eq]
  simp only [bind_eq_ok, get_eq_ok, run_ite]
  refine ⟨_, _, ⟨rfl, rfl⟩, ?_⟩
  rw [if_neg hkind]
  rfl

theorem moreSegments_ok_cons (hkind : s.kind = .dot) (hname : s.advanced.kind = .identifier)
    (hrest : moreSegments s.advanced.advanced = .ok nodes s') :
    moreSegments s = .ok (s.advanced.leaf .identifier :: nodes) s' := by
  rw [moreSegments_eq]
  simp only [bind_eq_ok, get_eq_ok, run_ite]
  refine ⟨_, _, ⟨rfl, rfl⟩, ?_⟩
  rw [if_pos hkind]
  simp only [bind_eq_ok, advance_eq_ok, identifier_eq_ok, pure_eq_ok]
  exact ⟨_, _, ⟨rfl, rfl⟩, _, _, ⟨hname, rfl, rfl⟩, _, _, hrest, rfl, rfl⟩

theorem gives_importPath (hkind : s.kind = .identifier) (hcolon : s.advanced.kind = .colon)
    (hparts : segments s.advanced.advanced = .ok nodes s')
    (hscheme : importSchemes.contains s.current.text) :
    importPath.Gives
      [⟨.importPath, nodes, s'.spanFrom s.current.span.start, some s.current.text⟩] s s' := by
  refine gives_iff.mpr ?_
  simp only [importPath, bind_eq_ok, expect_eq_ok, get_eq_ok, run_ite]
  refine ⟨_, _, ⟨hkind, rfl, rfl⟩, _, _, ⟨hcolon, rfl, rfl⟩, _, _, hparts, _, _, ⟨rfl, rfl⟩, ?_⟩
  rw [if_pos hscheme]
  rfl

section
variable {path : Node}

theorem pathImport_ok (hpath : importPath.Gives [path] s s') (has : s'.kind ≠ .keyword .asKw) :
    pathImport s = .ok [path] s' := by
  simp only [pathImport, bind_eq_ok, run_ite, get_eq_ok]
  refine ⟨path, s', gives_iff.mp hpath, _, _, ⟨rfl, rfl⟩, ?_⟩
  rw [if_neg has]
  rfl

theorem pathImport_ok_as (hpath : importPath.Gives [path] s s₁) (has : s₁.kind = .keyword .asKw)
    (hname : s₁.advanced.kind = .identifier) :
    pathImport s = .ok [path, s₁.advanced.leaf .identifier] s₁.advanced.advanced := by
  simp only [pathImport, bind_eq_ok, run_ite, get_eq_ok]
  refine ⟨path, s₁, gives_iff.mp hpath, _, _, ⟨rfl, rfl⟩, ?_⟩
  rw [if_pos has]
  simp only [bind_eq_ok, advance_eq_ok, identifier_eq_ok, pure_eq_ok]
  exact ⟨_, _, ⟨rfl, rfl⟩, _, _, ⟨hname, rfl, rfl⟩, rfl, rfl⟩

theorem nameImport_ok {names : List Node}
    (hnames : (bracketed .leftBrace .rightBrace false identifier).GivesList names s s₁)
    (hsome : names ≠ []) (hfrom : s₁.kind = .keyword .fromKw)
    (hpath : importPath.Gives [path] s₁.advanced s₂) : nameImport s = .ok (names ++ [path]) s₂ := by
  simp only [nameImport, importedNames, bind_eq_ok, run_ite, expect_eq_ok, pure_eq_ok]
  refine ⟨names, s₁, ⟨_, _, hnames, ?_⟩, _, _, ⟨hfrom, rfl, rfl⟩, path, s₂, gives_iff.mp hpath, rfl, rfl⟩
  rw [if_neg (by simpa using hsome)]
  rfl

theorem gives_importStmt
    (hparts : (if s.advanced.kind = .leftBrace then nameImport s.advanced else pathImport s.advanced) =
      .ok nodes s') :
    importStmt.Gives [Node.branch .importStmt (s'.spanFrom s.current.span.start) nodes] s s' := by
  refine gives_iff.mpr ?_
  simp only [importStmt, bind_eq_ok, advance_eq_ok, get_eq_ok, run_ite]
  refine ⟨_, _, ⟨rfl, rfl⟩, _, _, ⟨rfl, rfl⟩, ?_⟩
  split at hparts
  · rename_i hbrace
    rw [if_pos hbrace]
    exact bind_eq_ok.mpr ⟨nodes, s', hparts, rfl⟩
  · rename_i hbrace
    rw [if_neg hbrace]
    exact bind_eq_ok.mpr ⟨nodes, s', hparts, rfl⟩

end

/-! ### Control -/

theorem gives_forStmt (hcondition : (inner.expression .lowest).Gives [condition] s.advanced s₁)
    (hbody : inner.block.Gives [body] s₁ s₂) :
    (forStmt inner).Gives
      [Node.branch .forStmt (s.current.span.through body.span) [condition, body]] s s₂ := by
  rw [gives_iff] at hcondition hbody ⊢
  simp only [forStmt, bind_eq_ok, advance_eq_ok, pure_eq_ok]
  exact ⟨_, _, ⟨rfl, rfl⟩, _, _, hcondition, _, _, hbody, rfl, rfl⟩

theorem gives_ifStmt {clauses : List Node}
    (hcondition : (inner.expression .lowest).Gives [condition] s.advanced s₁)
    (hbody : inner.block.Gives [body] s₁ s₂) (hclauses : moreClauses inner false s₂ = .ok clauses s₃) :
    (ifStmt inner).Gives
      [Node.branch .ifStmt (s₃.spanFrom s.current.span.start) (condition :: body :: clauses)] s s₃ := by
  rw [gives_iff] at hcondition hbody ⊢
  simp only [ifStmt, bind_eq_ok, advance_eq_ok, get_eq_ok, pure_eq_ok]
  exact ⟨_, _, ⟨rfl, rfl⟩, _, _, hcondition, _, _, hbody, _, _, ⟨rfl, rfl⟩, _, _, hclauses, _, _,
    ⟨rfl, rfl⟩, rfl, rfl⟩

theorem clause_ok_else (hbody : inner.block.Gives [body] s.advanced s') :
    clause inner true s =
      .ok (s.current, Node.branch .elseClause (s.current.span.through body.span) [body]) s' := by
  simp only [clause, bind_eq_ok, advance_eq_ok, if_true, pure_eq_ok]
  exact ⟨_, _, ⟨rfl, rfl⟩, _, _, gives_iff.mp hbody, rfl, rfl⟩

theorem clause_ok_elif (hcondition : (inner.expression .lowest).Gives [condition] s.advanced s₁)
    (hbody : inner.block.Gives [body] s₁ s₂) :
    clause inner false s =
      .ok (s.current, Node.branch .elifClause (s.current.span.through body.span) [condition, body]) s₂ := by
  simp only [clause, bind_eq_ok, advance_eq_ok, Bool.false_eq_true, if_false, pure_eq_ok]
  exact ⟨_, _, ⟨rfl, rfl⟩, _, _, gives_iff.mp hcondition, _, _, gives_iff.mp hbody, rfl, rfl⟩

theorem moreClauses_ok_nil [Inner.Forward inner] {seenElse : Bool}
    (hclause : clauseKind? s.kindPastNewlines = none) :
    moreClauses inner seenElse s = .ok [] s := by
  rw [moreClauses_eq]
  simp only [bind_eq_ok, get_eq_ok]
  refine ⟨_, _, ⟨rfl, rfl⟩, ?_⟩
  simp only [hclause]
  rfl

theorem moreClauses_ok_cons [Inner.Forward inner] {isElse : Bool} {node : Node} {rest : List Node}
    (hclause : clauseKind? s.kindPastNewlines = some isElse)
    (hnode : clause inner isElse s.pastNewlines = .ok (s.pastNewlines.current, node) s₁)
    (hrest : moreClauses inner isElse s₁ = .ok rest s₂) :
    moreClauses inner false s = .ok (node :: rest) s₂ := by
  rw [moreClauses_eq]
  simp only [bind_eq_ok, get_eq_ok]
  refine ⟨_, _, ⟨rfl, rfl⟩, ?_⟩
  simp only [hclause, bind_eq_ok, skipNewlines_eq_ok, pure_eq_ok]
  exact ⟨(), _, rfl, _, _, hnode, node, s₁, rfl, _, _, hrest, rfl, rfl⟩

theorem gives_bareReturn (hend : s.advanced.atStatementEnd) :
    (returnStmt inner).Gives [Node.branch .returnStmt s.current.span []] s s.advanced := by
  refine gives_iff.mpr ?_
  simp only [returnStmt, bind_eq_ok, advance_eq_ok, get_eq_ok, run_ite]
  refine ⟨_, _, ⟨rfl, rfl⟩, _, _, ⟨rfl, rfl⟩, ?_⟩
  rw [if_pos hend]
  rfl

theorem gives_returnStmt (hend : s.advanced.atStatementEnd = false)
    (hvalue : (inner.expression .lowest).Gives [value] s.advanced s') :
    (returnStmt inner).Gives
      [Node.branch .returnStmt (s.current.span.through value.span) [value]] s s' := by
  refine gives_iff.mpr ?_
  simp only [returnStmt, bind_eq_ok, advance_eq_ok, get_eq_ok, run_ite]
  refine ⟨_, _, ⟨rfl, rfl⟩, _, _, ⟨rfl, rfl⟩, ?_⟩
  rw [if_neg (by simp [hend])]
  exact bind_eq_ok.mpr ⟨_, _, gives_iff.mp hvalue, rfl⟩

end

end ScriptSyntax.Parser
