import ScriptSyntax.Proofs.Parsing.Grammar

/-!
Every step that succeeds reads by the grammar: `reads_of_statements` gives the rules that a parse of a
whole source followed.
-/

namespace ScriptSyntax.Parser

variable {α β : Type}

theorem pure_eq_ok {value value' : α} {s s' : State} :
    (pure value : Parser α) s = .ok value' s' ↔ value = value' ∧ s = s' := by
  rw [run_pure, EStateM.Result.ok.injEq]

theorem get_eq_ok {s s' t : State} : (get : Parser State) s = .ok t s' ↔ s = t ∧ s = s' := by
  rw [run_get, EStateM.Result.ok.injEq]

theorem advance_eq_ok {token : Token} {s s' : State} :
    advance s = .ok token s' ↔ s.current = token ∧ s.advanced = s' := by
  rw [run_advance, EStateM.Result.ok.injEq]

theorem report_eq_ok {e : SyntaxError} {u : Unit} {s s' : State} :
    report e s = .ok u s' ↔ s.reported (.ofError e) = s' := by
  rw [run_report, EStateM.Result.ok.injEq]
  exact ⟨And.right, fun h => ⟨rfl, h⟩⟩

theorem skipNewlines_eq_ok {u : Unit} {s s' : State} :
    skipNewlines s = .ok u s' ↔ s.pastNewlines = s' := by
  rw [run_skipNewlines, EStateM.Result.ok.injEq]
  exact ⟨And.right, fun h => ⟨rfl, h⟩⟩

theorem skipSeparators_eq_ok {u : Unit} {s s' : State} :
    skipSeparators s = .ok u s' ↔ s.pastSeparators = s' := by
  rw [run_skipSeparators, EStateM.Result.ok.injEq]
  exact ⟨And.right, fun h => ⟨rfl, h⟩⟩

theorem failWith_ne_ok {error : State → SyntaxError} {value : α} {s s' : State} :
    (failWith error : Parser α) s ≠ .ok value s' := by
  rw [run_failWith]
  exact nofun

theorem identifier_eq_ok {node : Node} {s s' : State} :
    identifier s = .ok node s' ↔
      s.kind = .identifier ∧ s.leaf .identifier = node ∧ s.advanced = s' := by
  unfold identifier
  simp only [bind_eq_ok, expect_eq_ok, pure_eq_ok]
  constructor
  · rintro ⟨_, _, ⟨hkind, rfl, rfl⟩, rfl, rfl⟩
    exact ⟨hkind, rfl, rfl⟩
  · rintro ⟨hkind, rfl, rfl⟩
    exact ⟨_, _, ⟨hkind, rfl, rfl⟩, rfl, rfl⟩

theorem run_pendingOperator (power : BindingPower) (s : State) :
    pendingOperator power s = .ok (s.pending power) s := by
  unfold pendingOperator State.pending
  simp only [run_bind, run_get]
  cases hform : s.kind.operatorForm? with
  | none => rfl
  | some next =>
      by_cases hpower : power < next.1
      · simp [hpower, Option.filter]
      · simp [hpower, Option.filter]


theorem previousEnd_advanced {s : State} (hkind : s.kind ≠ .endOfFile) :
    s.advanced.previousEnd = s.current.span.stop := by
  obtain ⟨slot, slots, hrest⟩ := State.exists_rest_eq_cons hkind
  simp [State.advanced, hrest, State.current, State.slot]

/-! ### Lists -/

section
variable {item : Item} {reader : Parser Node}

theorem reads_of_moreItems [Forward reader]
    (hreader : ∀ {s s' : State} {node : Node}, reader s = .ok node s' →
      Reads false item.part [node] s s') {s s' : State} {nodes : List Node}
    (hrun : moreItems reader s = .ok nodes s') : Reads false (.more item) nodes s s' := by
  induction hlength : s.rest.length using Nat.strongRecOn generalizing s nodes with
  | ind length ih =>
      rw [moreItems_eq] at hrun
      simp only [bind_eq_ok, get_eq_ok] at hrun
      obtain ⟨_, _, ⟨rfl, rfl⟩, hrun⟩ := hrun
      rw [run_ite] at hrun
      split at hrun
      · rename_i hkind
        simp only [bind_eq_ok, advance_eq_ok, skipNewlines_eq_ok, pure_eq_ok] at hrun
        obtain ⟨_, _, ⟨rfl, rfl⟩, _, _, rfl, next, s₁, hnext, _, _, rfl, more, s₂, hmore, rfl, rfl⟩ :=
          hrun
        have hadvanced := State.length_advanced (s := s) (by simp [hkind])
        have hbefore := s.advanced.advances_pastNewlines.length_le
        have hitem := (Forward.advances_of_ok reader hnext).length_le
        have hbehind := s₁.advances_pastNewlines.length_le
        exact .more hkind (hreader hnext) (ih _ (by omega) hmore rfl)
      · rename_i hkind
        obtain ⟨rfl, rfl⟩ := pure_eq_ok.mp hrun
        exact .noMore hkind

variable (item) in
theorem reads_of_bracketed [Forward reader]
    (hreader : ∀ {s s' : State} {node : Node}, reader s = .ok node s' →
      Reads false item.part [node] s s') {opener closer : TokenKind} {expressionList : Bool}
    (hend : closer ≠ .endOfFile) {s s' : State} {nodes : List Node} {span : Span}
    (hrun : bracketed opener closer expressionList reader s = .ok (nodes, span) s') :
    Reads false (.list opener closer expressionList item) nodes s s' ∧
      span = s'.spanFrom s.current.span.start := by
  rw [bracketed_eq] at hrun
  simp only [bind_eq_ok, expect_eq_ok, delimited_eq_ok, skipNewlines_eq_ok, pure_eq_ok,
    Prod.mk.injEq] at hrun
  obtain ⟨_, _, ⟨hkind, rfl, rfl⟩, _, ⟨_, _, rfl, nodes', s₂, hnodes, _, _, ⟨hcloser, rfl, rfl⟩,
    ⟨rfl, rfl⟩, rfl⟩, rfl⟩ := hrun
  have hspan : s.current.span.through s₂.current.span =
      s₂.advanced.closed.spanFrom s.current.span.start := by
    unfold Span.through State.spanFrom
    rw [← previousEnd_advanced (s := s₂) (by rw [hcloser]; exact hend)]
    rfl
  refine ⟨?_, hspan⟩
  unfold itemsBefore at hnodes
  simp only [bind_eq_ok, get_eq_ok, run_ite] at hnodes
  obtain ⟨_, _, ⟨rfl, rfl⟩, hnodes⟩ := hnodes
  split at hnodes
  · rename_i hempty
    obtain ⟨rfl, rfl⟩ := pure_eq_ok.mp hnodes
    exact .emptyList hkind hempty
  · unfold items at hnodes
    simp only [bind_eq_ok, skipNewlines_eq_ok, get_eq_ok] at hnodes
    obtain ⟨first, s₃, hfirst, _, _, rfl, _, _, ⟨rfl, rfl⟩, hrest⟩ := hnodes
    rw [itemsWithin_eq_map, map_eq_pure_bind] at hrest
    simp only [bind_eq_ok, pure_eq_ok] at hrest
    obtain ⟨rest, _, hrest, rfl, rfl⟩ := hrest
    have hmore : moreItems reader s₃.pastNewlines = .ok rest _ := hrest
    exact .items hkind (hreader hfirst) (reads_of_moreItems hreader hmore) hcloser

end

/-! ### Expressions -/

theorem literal_eq_ok {node : Node} {s s' : State} :
    literal s = .ok node s' ↔
      ∃ kind, literalKind? s.kind = some kind ∧ s.leaf kind = node ∧ s.advanced = s' := by
  unfold literal
  simp only [run_bind, run_get]
  cases hkind : literalKind? s.kind with
  | none => simp
  | some kind => simp [run_bind, State.leaf]

/-- The readers inside a form read by the grammar. -/
structure Reading (inner : Inner) : Prop where
  expression : ∀ {power : BindingPower} {s s' : State} {node : Node},
    inner.expression power s = .ok node s' → Reads false (.expression power) [node] s s'
  block : ∀ {s s' : State} {node : Node}, inner.block s = .ok node s' → Reads false .block [node] s s'

theorem reads_of_identifier {s s' : State} {node : Node} (hrun : identifier s = .ok node s') :
    Reads false .name [node] s s' := by
  obtain ⟨hkind, rfl, rfl⟩ := identifier_eq_ok.mp hrun
  exact .identifier hkind

theorem reads_of_parameterList {s s' : State} {node : Node} (hrun : parameterList s = .ok node s') :
    Reads false .parameters [node] s s' := by
  unfold parameterList at hrun
  simp only [bind_eq_ok, pure_eq_ok] at hrun
  obtain ⟨⟨names, span⟩, _, hlist, rfl, rfl⟩ := hrun
  obtain ⟨hnames, rfl⟩ := reads_of_bracketed .name reads_of_identifier (by simp) hlist
  exact .parameters hnames

section
variable {inner : Inner} [Inner.Forward inner] (hinner : Reading inner)
include hinner

theorem reads_of_arguments {s s' : State} {values : List Node} {span : Span}
    (hrun : arguments inner s = .ok (values, span) s') :
    Reads false (.list .leftParen .rightParen true .expression) values s s' ∧
      span = s'.spanFrom s.current.span.start :=
  reads_of_bracketed .expression hinner.expression (by simp) hrun

theorem reads_of_nameOrCall {s s' : State} {node : Node} (hrun : nameOrCall inner s = .ok node s') :
    Reads false (.operand .name) [node] s s' := by
  unfold nameOrCall at hrun
  simp only [bind_eq_ok, identifier_eq_ok, get_eq_ok, run_ite] at hrun
  obtain ⟨_, _, ⟨hkind, rfl, rfl⟩, _, _, ⟨rfl, rfl⟩, hrun⟩ := hrun
  split at hrun
  · simp only [bind_eq_ok, pure_eq_ok] at hrun
    obtain ⟨⟨values, span⟩, _, hlist, rfl, rfl⟩ := hrun
    obtain ⟨hvalues, rfl⟩ := reads_of_arguments hinner hlist
    exact .call hkind hvalues
  · rename_i hparen
    obtain ⟨rfl, rfl⟩ := pure_eq_ok.mp hrun
    exact .name hkind hparen

theorem reads_of_macroCall {s s' : State} {node : Node}
    (hsigil : s.kind.operandForm? = some .macroCall) (hrun : macroCall inner s = .ok node s') :
    Reads false (.operand .macroCall) [node] s s' := by
  unfold macroCall at hrun
  simp only [bind_eq_ok, advance_eq_ok, identifier_eq_ok, get_eq_ok, run_ite] at hrun
  obtain ⟨_, _, ⟨rfl, rfl⟩, _, _, ⟨hname, rfl, rfl⟩, _, _, ⟨rfl, rfl⟩, hrun⟩ := hrun
  split at hrun
  · simp only [bind_eq_ok, pure_eq_ok] at hrun
    obtain ⟨⟨values, span⟩, _, hlist, rfl, rfl⟩ := hrun
    obtain ⟨hvalues, rfl⟩ := reads_of_arguments hinner hlist
    exact .macroCall hsigil hname hvalues
  · exact absurd hrun failWith_ne_ok

theorem reads_of_array {s s' : State} {node : Node} (hrun : array inner s = .ok node s') :
    Reads false (.operand .array) [node] s s' := by
  unfold array at hrun
  simp only [bind_eq_ok, pure_eq_ok] at hrun
  obtain ⟨⟨elements, span⟩, _, hlist, rfl, rfl⟩ := hrun
  obtain ⟨helements, rfl⟩ :=
    reads_of_bracketed .expression hinner.expression (by simp) hlist
  exact .array helements

omit [Inner.Forward inner] in
theorem reads_of_keyValuePair {s s' : State} {node : Node}
    (hrun : keyValuePair inner s = .ok node s') : Reads false .entry [node] s s' := by
  unfold keyValuePair at hrun
  simp only [bind_eq_ok, get_eq_ok, run_ite] at hrun
  obtain ⟨_, _, ⟨rfl, rfl⟩, hrun⟩ := hrun
  split at hrun
  · rename_i hkind
    simp only [bind_eq_ok, literal_eq_ok, expect_eq_ok, skipNewlines_eq_ok, pure_eq_ok] at hrun
    obtain ⟨_, _, ⟨kind, hliteral, rfl, rfl⟩, _, _, ⟨hcolon, rfl, rfl⟩, _, _, rfl, value, _, hvalue,
      rfl, rfl⟩ := hrun
    obtain rfl : kind = .stringLit := by
      simpa [hkind, literalKind?, eq_comm] using hliteral
    exact .entry hkind hcolon (hinner.expression hvalue)
  · exact absurd hrun failWith_ne_ok

theorem reads_of_object {s s' : State} {node : Node} (hrun : object inner s = .ok node s') :
    Reads false (.operand .object) [node] s s' := by
  unfold object at hrun
  simp only [bind_eq_ok, pure_eq_ok] at hrun
  obtain ⟨⟨entries, span⟩, _, hlist, rfl, rfl⟩ := hrun
  obtain ⟨hentries, rfl⟩ :=
    reads_of_bracketed .entry (reads_of_keyValuePair hinner) (by simp) hlist
  exact .object hentries

omit [Inner.Forward inner] in
theorem reads_of_lambda {s s' : State} {node : Node} (hkind : s.kind = .keyword .fnKw)
    (hrun : lambda inner s = .ok node s') : Reads false (.operand .lambda) [node] s s' := by
  unfold lambda at hrun
  simp only [bind_eq_ok, advance_eq_ok, pure_eq_ok] at hrun
  obtain ⟨_, _, ⟨rfl, rfl⟩, parameters, _, hparameters, body, _, hbody, rfl, rfl⟩ := hrun
  exact .lambda hkind (reads_of_parameterList hparameters) (hinner.block hbody)

theorem reads_of_operand {form : OperandForm} {s s' : State} {node : Node}
    (hform : s.kind.operandForm? = some form) (hrun : operand inner form s = .ok node s') :
    Reads false (.operand form) [node] s s' := by
  cases form with
  | literal =>
      obtain ⟨kind, hkind, rfl, rfl⟩ := literal_eq_ok.mp hrun
      exact .literal hkind
  | name => exact reads_of_nameOrCall hinner hrun
  | array => exact reads_of_array hinner hrun
  | object => exact reads_of_object hinner hrun
  | lambda =>
      refine reads_of_lambda hinner ?_ hrun
      unfold TokenKind.operandForm? at hform
      split at hform <;> simp_all
  | macroCall => exact reads_of_macroCall hinner hform hrun
  | awaitExpr =>
      simp only [operand, awaitExpr, bind_eq_ok, advance_eq_ok, pure_eq_ok] at hrun
      obtain ⟨_, _, ⟨rfl, rfl⟩, value, _, hvalue, rfl, rfl⟩ := hrun
      refine .awaitExpr ?_ (hinner.expression hvalue)
      unfold TokenKind.operandForm? at hform
      split at hform <;> simp_all
  | bang =>
      simp only [operand, bang, bind_eq_ok, advance_eq_ok, pure_eq_ok] at hrun
      obtain ⟨_, _, ⟨rfl, rfl⟩, value, _, hvalue, rfl, rfl⟩ := hrun
      exact .bang hform (hinner.expression hvalue)
  | lexicalError =>
      obtain ⟨e, hkind⟩ : ∃ e, s.kind = .error e := by
        unfold TokenKind.operandForm? at hform
        split at hform <;> simp_all
      simp only [operand, lexicalError, bind_eq_ok, advance_eq_ok] at hrun
      obtain ⟨_, _, ⟨rfl, rfl⟩, hrun⟩ := hrun
      change s.current.kind = _ at hkind
      simp only [hkind, bind_eq_ok, report_eq_ok, pure_eq_ok] at hrun
      obtain ⟨_, _, rfl, rfl, rfl⟩ := hrun
      exact .lexicalError hkind rfl

omit [Inner.Forward inner] in
theorem reads_of_rightOperand {power : BindingPower} {s s' : State} {token : Token} {right : Node}
    (hrun : rightOperand inner power s = .ok (token, right) s') :
    token = s.current ∧ Reads false (.expression power) [right] s.advanced.pastNewlines s' := by
  unfold rightOperand at hrun
  simp only [bind_eq_ok, advance_eq_ok, skipNewlines_eq_ok, pure_eq_ok, Prod.mk.injEq] at hrun
  obtain ⟨_, _, ⟨rfl, rfl⟩, _, _, rfl, right, _, hright, ⟨rfl, rfl⟩, rfl⟩ := hrun
  exact ⟨rfl, hinner.expression hright⟩

omit [Inner.Forward inner] in
theorem reads_of_continuation {next : BindingPower} {left node : Node} {form : OperatorForm}
    {s s' : State} (hform : s.kind.operatorForm? = some (next, form))
    (hrun : continuation inner next left form s = .ok node s') :
    Reads false (.continuation next left form) [node] s s' := by
  cases form with
  | binary =>
      simp only [continuation, binary, bind_eq_ok, pure_eq_ok] at hrun
      obtain ⟨⟨token, right⟩, _, hrest, rfl, rfl⟩ := hrun
      obtain ⟨rfl, hright⟩ := reads_of_rightOperand hinner hrest
      exact .operation (by simp) hform hright
  | membership =>
      simp only [continuation, membership, bind_eq_ok, pure_eq_ok] at hrun
      obtain ⟨⟨token, right⟩, _, hrest, rfl, rfl⟩ := hrun
      obtain ⟨rfl, hright⟩ := reads_of_rightOperand hinner hrest
      exact .operation (by simp) hform hright
  | range =>
      simp only [continuation, range, bind_eq_ok, pure_eq_ok] at hrun
      obtain ⟨⟨token, right⟩, _, hrest, rfl, rfl⟩ := hrun
      obtain ⟨rfl, hright⟩ := reads_of_rightOperand hinner hrest
      exact .operation (by simp) hform hright
  | member =>
      simp only [continuation, member, bind_eq_ok, pure_eq_ok] at hrun
      obtain ⟨⟨token, right⟩, _, hrest, rfl, rfl⟩ := hrun
      obtain ⟨rfl, hright⟩ := reads_of_rightOperand hinner hrest
      exact .operation (by simp) hform hright
  | subscript =>
      have hkind : s.kind = .leftBracket := by
        unfold TokenKind.operatorForm? at hform
        split at hform <;> simp_all
      simp only [continuation, subscript, bind_eq_ok, advance_eq_ok, delimited_eq_ok,
        skipNewlines_eq_ok, expect_eq_ok, pure_eq_ok] at hrun
      obtain ⟨_, _, ⟨rfl, rfl⟩, _, ⟨_, _, rfl, index, s₁, hindex, _, _, rfl, _, _,
        ⟨hclosing, rfl, rfl⟩, rfl, rfl⟩, rfl⟩ := hrun
      exact .subscript hkind (hinner.expression hindex) hclosing

/-! ### Statements -/

omit hinner [Inner.Forward inner] in
theorem checkedTarget_eq_ok {kind : NodeKind} {target node : Node} {s s' : State} :
    checkedTarget kind target s = .ok node s' ↔
      (isValidTarget kind target || target.isError) = true ∧ target = node ∧ s = s' ∨
      (isValidTarget kind target || target.isError) = false ∧ target.errorWrapping = node ∧
        s.reported (.ofError ⟨.invalidTarget target.kind.name, target.span⟩) = s' := by
  unfold checkedTarget
  rw [run_ite]
  split
  · rename_i hvalid
    simp [hvalid]
  · rename_i hvalid
    simp [hvalid, run_bind]

omit [Inner.Forward inner] in
theorem reads_of_assignmentOrExpression {s s' : State} {node : Node}
    (hrun : assignmentOrExpression inner s = .ok node s') : Reads false .assignment [node] s s' := by
  unfold assignmentOrExpression at hrun
  simp only [bind_eq_ok, get_eq_ok] at hrun
  obtain ⟨target, s₁, htarget, _, _, ⟨rfl, rfl⟩, hrun⟩ := hrun
  have hread := hinner.expression htarget
  cases hkind : assignmentKind? s₁.kind with
  | none =>
      simp only [hkind, pure_eq_ok] at hrun
      obtain ⟨rfl, rfl⟩ := hrun
      exact .bare hread hkind
  | some kind =>
      simp only [hkind, bind_eq_ok, advance_eq_ok, checkedTarget_eq_ok, pure_eq_ok] at hrun
      obtain ⟨_, _, ⟨rfl, rfl⟩, value, s₂, hvalue, checked, _, hchecked, rfl, rfl⟩ := hrun
      rcases hchecked with ⟨hvalid, rfl, rfl⟩ | ⟨hvalid, rfl, rfl⟩
      · exact .assign hread hkind (hinner.expression hvalue) hvalid
      · exact .misassign hread hkind (hinner.expression hvalue) hvalid rfl

omit hinner [Inner.Forward inner] in
theorem asyncWord_eq_ok {found : Bool} {s s' : State} :
    asyncWord s = .ok found s' ↔
      s.kind = .keyword .asyncKw ∧ found = true ∧ s.advanced = s' ∨
      s.kind ≠ .keyword .asyncKw ∧ found = false ∧ s = s' := by
  rw [run_asyncWord]
  split
  · rename_i hkind
    simp [hkind, eq_comm]
  · rename_i hkind
    simp [hkind, eq_comm]

omit [Inner.Forward inner] in
theorem reads_of_functionDecl {s s' : State} {node : Node}
    (hrun : functionDecl inner s = .ok node s') : Reads false (.form .functionDecl) [node] s s' := by
  rw [functionDecl_eq] at hrun
  simp only [bind_eq_ok, get_eq_ok, expect_eq_ok, identifier_eq_ok, pure_eq_ok] at hrun
  obtain ⟨_, _, ⟨rfl, rfl⟩, before, s₁, hbefore, _, _, ⟨hfn, rfl, rfl⟩, isAsync, s₂, hlater, _, _,
    ⟨hname, rfl, rfl⟩, parameters, s₃, hparameters, body, s₄, hbody, _, _, ⟨rfl, rfl⟩, rfl, rfl⟩ := hrun
  refine .functionDecl ?_ hname (reads_of_parameterList hparameters) (hinner.block hbody)
  rcases asyncWord_eq_ok.mp hbefore with ⟨hasync, rfl, rfl⟩ | ⟨-, rfl, rfl⟩
  · obtain ⟨rfl, rfl⟩ := pure_eq_ok.mp hlater
    exact .asyncFirst hasync hfn
  · rcases asyncWord_eq_ok.mp hlater with ⟨hasync, rfl, rfl⟩ | ⟨hasync, rfl, rfl⟩
    · exact .asyncLast hfn hasync
    · exact .plain hfn hasync

omit [Inner.Forward inner] in
theorem reads_of_macroDecl {s s' : State} {node : Node} (hkind : s.kind = .keyword .macroKw)
    (hrun : macroDecl inner s = .ok node s') : Reads false (.form .macroDecl) [node] s s' := by
  unfold macroDecl at hrun
  simp only [bind_eq_ok, advance_eq_ok, identifier_eq_ok, pure_eq_ok] at hrun
  obtain ⟨_, _, ⟨rfl, rfl⟩, _, _, ⟨hname, rfl, rfl⟩, parameters, _, hparameters, body, _, hbody, rfl,
    rfl⟩ := hrun
  exact .macroDecl hkind hname (reads_of_parameterList hparameters) (hinner.block hbody)

omit [Inner.Forward inner] in
theorem reads_of_structField {s s' : State} {node : Node} (hrun : structField inner s = .ok node s') :
    Reads false .field [node] s s' := by
  unfold structField at hrun
  simp only [bind_eq_ok, identifier_eq_ok, expect_eq_ok, pure_eq_ok] at hrun
  obtain ⟨_, _, ⟨hkind, rfl, rfl⟩, _, _, ⟨hassign, rfl, rfl⟩, value, _, hvalue, rfl, rfl⟩ := hrun
  exact .field hkind hassign (hinner.expression hvalue)

omit [Inner.Forward inner] in
theorem reads_of_structMember {seenMethod isMethod : Bool} {s s' : State} {node : Node}
    (hrun : structMember inner seenMethod s = .ok (node, isMethod) s') :
    Reads false (.member seenMethod isMethod) [node] s s' := by
  rw [structMember_eq] at hrun
  simp only [bind_eq_ok, get_eq_ok, run_ite] at hrun
  obtain ⟨_, _, ⟨rfl, rfl⟩, hrun⟩ := hrun
  split at hrun
  · rename_i hkind
    simp only [bind_eq_ok, pure_eq_ok, Prod.mk.injEq] at hrun
    obtain ⟨_, _, hdecl, ⟨rfl, rfl⟩, rfl⟩ := hrun
    exact .method hkind (reads_of_functionDecl hinner hdecl)
  · split at hrun
    · simp only [bind_eq_ok, pure_eq_ok, Prod.mk.injEq] at hrun
      obtain ⟨field, s₁, hfield, checked, _, hchecked, ⟨rfl, rfl⟩, rfl⟩ := hrun
      have hread := reads_of_structField hinner hfield
      cases seenMethod with
      | false =>
          obtain ⟨rfl, rfl⟩ := pure_eq_ok.mp hchecked
          exact .earlyField hread
      | true =>
          simp only [checkedField, if_true, bind_eq_ok, report_eq_ok, pure_eq_ok] at hchecked
          obtain ⟨_, _, rfl, rfl, rfl⟩ := hchecked
          exact .lateField hread rfl
    · exact absurd hrun failWith_ne_ok

theorem reads_of_moreMembers {opener : Span} {seenMethod : Bool} {s s' : State} {nodes : List Node}
    (hrun : moreMembers inner opener seenMethod s = .ok nodes s') :
    Reads false (.members seenMethod) nodes s s' := by
  induction hlength : s.rest.length using Nat.strongRecOn generalizing s nodes seenMethod with
  | ind length ih =>
      rw [moreMembers_eq] at hrun
      simp only [bind_eq_ok, skipSeparators_eq_ok, get_eq_ok, run_ite] at hrun
      obtain ⟨_, _, rfl, _, _, ⟨rfl, rfl⟩, hrun⟩ := hrun
      split at hrun
      · rename_i hkind
        obtain ⟨rfl, rfl⟩ := pure_eq_ok.mp hrun
        exact .noMembers hkind
      · split at hrun
        · cases hrun
        · simp only [bind_eq_ok, get_eq_ok, run_ite] at hrun
          obtain ⟨⟨node, isMethod⟩, s₁, hmember, _, _, ⟨rfl, rfl⟩, hrun⟩ := hrun
          split at hrun
          · rename_i hend
            simp only [bind_eq_ok, pure_eq_ok] at hrun
            obtain ⟨more, _, hmore, rfl, rfl⟩ := hrun
            have hbefore := s.advances_pastSeparators.length_le
            have hconsumed := length_lt_of_structMember inner hmember
            exact .members (reads_of_structMember hinner hmember) hend
              (ih _ (by omega) hmore rfl)
          · exact absurd hrun failWith_ne_ok

theorem reads_of_structDecl {s s' : State} {node : Node} (hkind : s.kind = .keyword .structKw)
    (hrun : structDecl inner s = .ok node s') : Reads false (.form .structDecl) [node] s s' := by
  unfold structDecl at hrun
  simp only [bind_eq_ok, advance_eq_ok, identifier_eq_ok, expect_eq_ok, delimited_eq_ok,
    pure_eq_ok] at hrun
  obtain ⟨_, _, ⟨rfl, rfl⟩, _, _, ⟨hname, rfl, rfl⟩, _, _, ⟨hopener, rfl, rfl⟩, members, _,
    ⟨s₁, hmembers, rfl⟩, _, _, ⟨hclosing, rfl, rfl⟩, rfl, rfl⟩ := hrun
  exact .structDecl hkind hname hopener (reads_of_moreMembers hinner (bind_eq_ok.mpr hmembers)) hclosing

omit hinner [Inner.Forward inner] in
theorem reads_of_moreSegments {s s' : State} {nodes : List Node}
    (hrun : moreSegments s = .ok nodes s') : Reads false .moreSegments nodes s s' := by
  induction hlength : s.rest.length using Nat.strongRecOn generalizing s nodes with
  | ind length ih =>
      rw [moreSegments_eq] at hrun
      simp only [bind_eq_ok, get_eq_ok, run_ite] at hrun
      obtain ⟨_, _, ⟨rfl, rfl⟩, hrun⟩ := hrun
      split at hrun
      · rename_i hkind
        simp only [bind_eq_ok, advance_eq_ok, identifier_eq_ok, pure_eq_ok] at hrun
        obtain ⟨_, _, ⟨rfl, rfl⟩, _, _, ⟨hname, rfl, rfl⟩, more, _, hmore, rfl, rfl⟩ := hrun
        have hadvanced := State.length_advanced (s := s) (by simp [hkind])
        have hlater := s.advanced.advances_advanced.length_le
        exact .moreSegments hkind hname (ih _ (by omega) hmore rfl)
      · rename_i hkind
        obtain ⟨rfl, rfl⟩ := pure_eq_ok.mp hrun
        exact .noMoreSegments hkind

omit hinner [Inner.Forward inner] in
theorem reads_of_segments {s s' : State} {nodes : List Node} (hrun : segments s = .ok nodes s') :
    Reads false .segments nodes s s' := by
  unfold segments at hrun
  simp only [bind_eq_ok, get_eq_ok, run_ite] at hrun
  obtain ⟨_, _, ⟨rfl, rfl⟩, hrun⟩ := hrun
  split at hrun
  · rename_i hkind
    simp only [bind_eq_ok, literal_eq_ok, pure_eq_ok] at hrun
    obtain ⟨_, _, ⟨kind, hliteral, rfl, rfl⟩, rfl, rfl⟩ := hrun
    obtain rfl : kind = .stringLit := by
      simpa [hkind, literalKind?, eq_comm] using hliteral
    exact .address hkind
  · simp only [bind_eq_ok, identifier_eq_ok, get_eq_ok] at hrun
    obtain ⟨_, _, ⟨hname, rfl, rfl⟩, _, _, ⟨rfl, rfl⟩, hrest⟩ := hrun
    rw [segmentsWithin_eq_map, map_eq_pure_bind] at hrest
    simp only [bind_eq_ok, pure_eq_ok] at hrest
    obtain ⟨rest, _, hrest, rfl, rfl⟩ := hrest
    have hmore : moreSegments s.advanced = .ok rest _ := hrest
    exact .segments hname (reads_of_moreSegments hmore)

omit hinner [Inner.Forward inner] in
theorem reads_of_importPath {s s' : State} {node : Node} (hrun : importPath s = .ok node s') :
    Reads false .path [node] s s' := by
  unfold importPath at hrun
  simp only [bind_eq_ok, expect_eq_ok, get_eq_ok, run_ite] at hrun
  obtain ⟨_, _, ⟨hkind, rfl, rfl⟩, _, _, ⟨hcolon, rfl, rfl⟩, parts, s₁, hparts, _, _, ⟨rfl, rfl⟩,
    hrun⟩ := hrun
  split at hrun
  · rename_i hscheme
    obtain ⟨rfl, rfl⟩ := pure_eq_ok.mp hrun
    exact .knownPath hkind hcolon (reads_of_segments hparts) hscheme
  · rename_i hscheme
    simp only [bind_eq_ok, report_eq_ok, pure_eq_ok] at hrun
    obtain ⟨_, _, rfl, rfl, rfl⟩ := hrun
    exact .unknownPath hkind hcolon (reads_of_segments hparts) (by simpa using hscheme) rfl

omit hinner [Inner.Forward inner] in
theorem reads_of_importStmt {s s' : State} {node : Node} (hkind : s.kind = .keyword .useKw)
    (hrun : importStmt s = .ok node s') : Reads false (.form .importStmt) [node] s s' := by
  unfold importStmt at hrun
  simp only [bind_eq_ok, advance_eq_ok, get_eq_ok, run_ite] at hrun
  obtain ⟨_, _, ⟨rfl, rfl⟩, _, _, ⟨rfl, rfl⟩, hrun⟩ := hrun
  split at hrun
  · simp only [nameImport, importedNames, bind_eq_ok, run_ite, expect_eq_ok, get_eq_ok, pure_eq_ok]
      at hrun
    obtain ⟨_, _, ⟨names, s₁, ⟨⟨_, span⟩, _, hlist, hnames⟩, _, _, ⟨hfrom, rfl, rfl⟩, path, s₂, hpath,
      rfl, rfl⟩, _, _, ⟨rfl, rfl⟩, rfl, rfl⟩ := hrun
    split at hnames
    · cases hnames
    · rename_i hsome
      obtain ⟨rfl, rfl⟩ := pure_eq_ok.mp hnames
      obtain ⟨hread, rfl⟩ := reads_of_bracketed .name reads_of_identifier (by simp) hlist
      exact .importNames hkind hread (by simpa using hsome) hfrom (reads_of_importPath hpath)
  · simp only [pathImport, bind_eq_ok, run_ite, get_eq_ok] at hrun
    obtain ⟨_, _, ⟨path, s₁, hpath, _, _, ⟨rfl, rfl⟩, hparts⟩, _, _, ⟨rfl, rfl⟩, hrun⟩ := hrun
    obtain ⟨rfl, rfl⟩ := pure_eq_ok.mp hrun
    have hread := reads_of_importPath hpath
    split at hparts
    · rename_i has
      simp only [bind_eq_ok, advance_eq_ok, identifier_eq_ok, pure_eq_ok] at hparts
      obtain ⟨_, _, ⟨rfl, rfl⟩, _, _, ⟨hname, rfl, rfl⟩, rfl, rfl⟩ := hparts
      exact .importAs hkind hread has hname
    · rename_i has
      obtain ⟨rfl, rfl⟩ := pure_eq_ok.mp hparts
      exact .importPath hkind hread has

omit [Inner.Forward inner] in
theorem reads_of_clause {isElse : Bool} {s s' : State} {token : Token} {node : Node}
    (hkind : clauseKind? s.kind = some isElse) (hrun : clause inner isElse s = .ok (token, node) s') :
    token = s.current ∧ Reads false (.clause isElse) [node] s s' := by
  unfold clause at hrun
  simp only [bind_eq_ok, advance_eq_ok, run_ite] at hrun
  obtain ⟨_, _, ⟨rfl, rfl⟩, hrun⟩ := hrun
  unfold clauseKind? at hkind
  split at hkind
  · rename_i helif
    obtain rfl : false = isElse := by simpa using hkind
    simp only [Bool.false_eq_true, if_false, bind_eq_ok, pure_eq_ok, Prod.mk.injEq] at hrun
    obtain ⟨condition, _, hcondition, body, _, hbody, ⟨rfl, rfl⟩, rfl⟩ := hrun
    exact ⟨rfl, .elifClause helif (hinner.expression hcondition) (hinner.block hbody)⟩
  · rename_i helse
    obtain rfl : true = isElse := by simpa using hkind
    simp only [if_true, bind_eq_ok, pure_eq_ok, Prod.mk.injEq] at hrun
    obtain ⟨body, _, hbody, ⟨rfl, rfl⟩, rfl⟩ := hrun
    exact ⟨rfl, .elseClause helse (hinner.block hbody)⟩
  · cases hkind

theorem reads_of_moreClauses {seenElse : Bool} {s s' : State} {nodes : List Node}
    (hrun : moreClauses inner seenElse s = .ok nodes s') : Reads false (.clauses seenElse) nodes s s' := by
  induction hlength : s.rest.length using Nat.strongRecOn generalizing s nodes seenElse with
  | ind length ih =>
      rw [moreClauses_eq] at hrun
      simp only [bind_eq_ok, get_eq_ok] at hrun
      obtain ⟨_, _, ⟨rfl, rfl⟩, hrun⟩ := hrun
      cases hclause : clauseKind? s.kindPastNewlines with
      | none =>
          simp only [hclause, pure_eq_ok] at hrun
          obtain ⟨rfl, rfl⟩ := hrun
          exact .noClauses hclause
      | some isElse =>
          simp only [hclause, bind_eq_ok, skipNewlines_eq_ok] at hrun
          obtain ⟨_, _, rfl, ⟨token, node⟩, s₁, hnode, checked, s₂, hchecked, hrun⟩ := hrun
          obtain ⟨more, _, hmore, hrun⟩ := hrun
          obtain ⟨rfl, rfl⟩ := pure_eq_ok.mp hrun
          have hkind := hclause
          rw [← State.kind_pastNewlines] at hkind
          have hfile : s.pastNewlines.kind ≠ .endOfFile := by
            intro hend
            simp [hend, clauseKind?] at hkind
          have hbefore := s.advances_pastNewlines.length_le
          have hconsumed := length_lt_of_clause inner hfile hnode
          have hlater := (Forward.advances_of_ok _ hchecked).length_le
          have hrest := ih _ (by omega) hmore rfl
          obtain ⟨rfl, hread⟩ := reads_of_clause hinner hkind hnode
          cases seenElse with
          | false =>
              obtain ⟨rfl, rfl⟩ := pure_eq_ok.mp hchecked
              exact .clauses hclause hread hrest
          | true =>
              simp only [checkedClause, if_true, bind_eq_ok, report_eq_ok, pure_eq_ok] at hchecked
              obtain ⟨_, _, rfl, rfl, rfl⟩ := hchecked
              exact .lateClause hclause hread hrest rfl

theorem reads_of_ifStmt {s s' : State} {node : Node} (hkind : s.kind = .keyword .ifKw)
    (hrun : ifStmt inner s = .ok node s') : Reads false (.form .ifStmt) [node] s s' := by
  unfold ifStmt at hrun
  simp only [bind_eq_ok, advance_eq_ok, get_eq_ok, pure_eq_ok] at hrun
  obtain ⟨_, _, ⟨rfl, rfl⟩, condition, _, hcondition, body, _, hbody, _, _, ⟨rfl, rfl⟩, clauses, _,
    hclauses, _, _, ⟨rfl, rfl⟩, rfl, rfl⟩ := hrun
  exact .ifStmt hkind (hinner.expression hcondition) (hinner.block hbody)
    (reads_of_moreClauses hinner hclauses)

omit [Inner.Forward inner] in
theorem reads_of_returnStmt {s s' : State} {node : Node} (hkind : s.kind = .keyword .returnKw)
    (hrun : returnStmt inner s = .ok node s') : Reads false (.form .returnStmt) [node] s s' := by
  unfold returnStmt at hrun
  simp only [bind_eq_ok, advance_eq_ok, get_eq_ok, run_ite] at hrun
  obtain ⟨_, _, ⟨rfl, rfl⟩, _, _, ⟨rfl, rfl⟩, hrun⟩ := hrun
  split at hrun
  · rename_i hend
    obtain ⟨rfl, rfl⟩ := pure_eq_ok.mp hrun
    exact .bareReturn hkind hend
  · rename_i hend
    simp only [bind_eq_ok, pure_eq_ok] at hrun
    obtain ⟨value, _, hvalue, rfl, rfl⟩ := hrun
    exact .returnStmt hkind (by simpa using hend) (hinner.expression hvalue)

omit hinner [Inner.Forward inner] in
theorem kind_of_statementForm? {kind : TokenKind} {form : StatementForm}
    (hform : kind.statementForm? = some form) :
    kind = .keyword form.word ∨ kind = .keyword .asyncKw ∧ form = .functionDecl := by
  unfold TokenKind.statementForm? at hform
  split at hform <;> cases hform
  all_goals simp [StatementForm.word]

theorem reads_of_statementOf {form : StatementForm} {s s' : State} {node : Node}
    (hform : s.kind.statementForm? = some form) (hrun : statementOf inner form s = .ok node s') :
    Reads false s.statementPart [node] s s' := by
  unfold State.statementPart
  simp only [hform]
  cases form with
  | functionDecl =>
      simp only [statementOf, functionStmt, bind_eq_ok, get_eq_ok, run_ite] at hrun
      obtain ⟨_, _, ⟨rfl, rfl⟩, hrun⟩ := hrun
      simp only [Bool.and_eq_true, decide_eq_true_eq] at hrun
      split at hrun
      · rename_i hlambda
        rw [if_pos hlambda]
        exact reads_of_assignmentOrExpression hinner hrun
      · rename_i hlambda
        rw [if_neg hlambda]
        exact reads_of_functionDecl hinner hrun
  | macroDecl =>
      have hkind : s.kind = .keyword .macroKw := by
        simpa [StatementForm.word] using kind_of_statementForm? hform
      simpa [hkind] using reads_of_macroDecl hinner hkind hrun
  | structDecl =>
      have hkind : s.kind = .keyword .structKw := by
        simpa [StatementForm.word] using kind_of_statementForm? hform
      simpa [hkind] using reads_of_structDecl hinner hkind hrun
  | importStmt =>
      have hkind : s.kind = .keyword .useKw := by
        simpa [StatementForm.word] using kind_of_statementForm? hform
      simpa [hkind] using reads_of_importStmt hkind hrun
  | forStmt =>
      have hkind : s.kind = .keyword .forKw := by
        simpa [StatementForm.word] using kind_of_statementForm? hform
      simp only [statementOf, forStmt, bind_eq_ok, advance_eq_ok, pure_eq_ok] at hrun
      obtain ⟨_, _, ⟨rfl, rfl⟩, condition, _, hcondition, body, _, hbody, rfl, rfl⟩ := hrun
      simpa [hkind] using
        Reads.forStmt hkind (hinner.expression hcondition) (hinner.block hbody)
  | ifStmt =>
      have hkind : s.kind = .keyword .ifKw := by
        simpa [StatementForm.word] using kind_of_statementForm? hform
      simpa [hkind] using reads_of_ifStmt hinner hkind hrun
  | returnStmt =>
      have hkind : s.kind = .keyword .returnKw := by
        simpa [StatementForm.word] using kind_of_statementForm? hform
      simpa [hkind] using reads_of_returnStmt hinner hkind hrun

theorem reads_of_statementIn {s s' : State} {node : Node} (hrun : statementIn inner s = .ok node s') :
    Reads false .statement [node] s s' := by
  unfold statementIn at hrun
  simp only [bind_eq_ok, get_eq_ok, run_log, EStateM.Result.ok.injEq] at hrun
  obtain ⟨_, _, ⟨rfl, rfl⟩, _, _, ⟨-, rfl⟩, hrun⟩ := hrun
  refine .statement ?_
  cases hform : s.kind.statementForm? with
  | none =>
      simp only [State.kind_current, hform] at hrun
      rw [State.statementPart, hform]
      exact reads_of_assignmentOrExpression hinner hrun
  | some form =>
      simp only [State.kind_current, hform] at hrun
      exact reads_of_statementOf hinner (s := s.begun) hform hrun

end

theorem attempt_eq_ok {p : Parser α} {outcome : Except SyntaxError α} {s s' : State} :
    attempt p s = .ok outcome s' ↔
      (∃ value, p s = .ok value s' ∧ .ok value = outcome) ∨
        ∃ e, p s = .error e s' ∧ .error e = outcome := by
  rw [run_attempt]
  constructor
  · intro hrun
    cases hp : p s with
    | ok value s₁ =>
        simp only [hp, EStateM.Result.ok.injEq] at hrun
        obtain ⟨houtcome, rfl⟩ := hrun
        exact .inl ⟨value, rfl, houtcome⟩
    | error e s₁ =>
        simp only [hp, EStateM.Result.ok.injEq] at hrun
        obtain ⟨houtcome, rfl⟩ := hrun
        exact .inr ⟨e, rfl, houtcome⟩
  · rintro (⟨value, hp, rfl⟩ | ⟨e, hp, rfl⟩)
    · simp only [hp]
    · simp only [hp]

theorem recover_eq_ok {mark : Mark} {inBlock : Bool} {node : Node} {s s' : State} :
    recover mark inBlock s = .ok node s' ↔
      Node.error (s'.spanSince mark) [] = node ∧ s.recovered mark inBlock = s' := by
  rw [run_recover, EStateM.Result.ok.injEq]
  constructor
  · rintro ⟨rfl, rfl⟩
    exact ⟨rfl, rfl⟩
  · rintro ⟨rfl, rfl⟩
    exact ⟨rfl, rfl⟩

/-- The ways in which a round of a list of statements goes from a state to `s'`. -/
inductive Rounded (statement : Parser Node) (inBlock : Bool) (s : State) : List Node → State → Prop where
  | whole {node : Node} {s' : State} (hstatement : statement s = .ok node s')
      (hseparated : s'.kind.isSeparator ∨ atListEnd inBlock s') :
      Rounded statement inBlock s [node] s'
  | joined {node : Node} {s₁ s' : State} (hstatement : statement s = .ok node s₁)
      (hseparated : ¬(s₁.kind.isSeparator ∨ atListEnd inBlock s₁))
      (hrecovered : s' = (s₁.reported (.ofError s₁.missingSeparator)).recovered s₁.mark inBlock) :
      Rounded statement inBlock s [node, Node.error (s'.spanSince s₁.mark) []] s'
  | broken {e : SyntaxError} {s₁ s' : State} (hstatement : statement s = .error e s₁)
      (hrecovered : s' = (s₁.reported (.ofError e)).recovered s.mark inBlock) :
      Rounded statement inBlock s [Node.error (s'.spanSince s.mark) []] s'

theorem rounded_of_statementRound {statement : Parser Node} {inBlock : Bool} {s s' : State}
    {nodes : List Node} (hrun : statementRound statement inBlock s = .ok nodes s') :
    Rounded statement inBlock s nodes s' := by
  simp only [statementRound, bind_eq_ok, get_eq_ok, attempt_eq_ok] at hrun
  obtain ⟨_, _, ⟨rfl, rfl⟩, _, s₁, ⟨node, hnode, rfl⟩ | ⟨e, hbroken, rfl⟩, hrun⟩ := hrun
  · simp only [afterAttempt, separated, bind_eq_ok, get_eq_ok, run_ite, pure_eq_ok] at hrun
    obtain ⟨behind, _, ⟨_, _, ⟨rfl, rfl⟩, hbehind⟩, rfl, rfl⟩ := hrun
    split at hbehind
    · rename_i hseparated
      obtain ⟨rfl, rfl⟩ := pure_eq_ok.mp hbehind
      exact .whole hnode hseparated
    · rename_i hseparated
      simp only [bind_eq_ok, report_eq_ok, recover_eq_ok, pure_eq_ok] at hbehind
      obtain ⟨_, _, rfl, _, _, ⟨rfl, rfl⟩, rfl, rfl⟩ := hbehind
      exact .joined hnode hseparated rfl
  · simp only [afterAttempt, bind_eq_ok, report_eq_ok, recover_eq_ok, pure_eq_ok] at hrun
    obtain ⟨_, _, rfl, _, _, ⟨rfl, rfl⟩, rfl, rfl⟩ := hrun
    exact .broken hbroken rfl

/-! ### Nesting -/

theorem reads_of_statementList {statement : Parser Node} [Forward statement]
    (hread : ∀ {s s' : State} {node : Node}, statement s = .ok node s' → Reads false .statement [node] s s')
    (hfail : ∀ {s s' : State} {e : SyntaxError}, statement s = .error e s' →
      ∃ levels, statementIn ⟨expressionAt levels, blockAt levels⟩ s = .error e s')
    {inBlock : Bool} {s s' : State} {nodes : List Node}
    (hrun : statementList statement inBlock s = .ok nodes s') :
    Reads false (.statements inBlock) nodes s s' := by
  induction hlength : s.rest.length using Nat.strongRecOn generalizing s nodes with
  | ind length ih =>
      rw [statementList_eq] at hrun
      simp only [bind_eq_ok, skipSeparators_eq_ok, get_eq_ok, run_ite] at hrun
      obtain ⟨_, _, rfl, _, _, ⟨rfl, rfl⟩, hrun⟩ := hrun
      split at hrun
      · rename_i hend
        obtain ⟨rfl, rfl⟩ := pure_eq_ok.mp hrun
        exact .noStatements hend
      · rename_i hend
        simp only [bind_eq_ok, pure_eq_ok] at hrun
        obtain ⟨first, s₂, hround, more, _, hmore, rfl, rfl⟩ := hrun
        have hmark : atListEnd inBlock s.pastSeparators = false := by simpa using hend
        have hbefore := s.advances_pastSeparators.length_le
        have hconsumed := length_lt_of_statementRound _ inBlock s.isSeparator_pastSeparators hmark
          hround
        have hrest := ih _ (by omega) hmore rfl
        cases rounded_of_statementRound hround with
        | whole hnode hseparated => exact .whole hmark (hread hnode) hseparated hrest
        | joined hnode hseparated hrecovered =>
            exact .joined hmark (hread hnode) hseparated hrecovered rfl hrest
        | broken hbroken hrecovered =>
            obtain ⟨levels, hlevels⟩ := hfail hbroken
            exact .broken hmark hlevels hrecovered rfl hrest

theorem missingExpression_eq_ok {node : Node} {s s' : State} :
    missingExpression s = .ok node s' ↔
      s.atBoundary ∧ Node.error (Span.empty s.current.span.start) [] = node ∧
        s.reported s.gapDiagnostic = s' := by
  unfold missingExpression
  simp only [run_bind, run_get, run_ite]
  by_cases hboundary : s.atBoundary
  · simp [hboundary, State.gapDiagnostic]
  · simp [hboundary]

/-- Whatever the number of levels left, the readers of expressions and blocks read by the grammar. -/
theorem reads_of_levels (levels : Nat) :
    Reading ⟨expressionAt levels, blockAt levels⟩ ∧
      ∀ {power : BindingPower} {left node : Node} {s s' : State},
        climbAt levels power left s = .ok node s' → Reads false (.climb power left) [node] s s' := by
  induction levels with
  | zero =>
      refine ⟨⟨?_, ?_⟩, ?_⟩
      · intro power s s' node hrun
        cases hrun
      · intro s s' node hrun
        cases hrun
      · intro power left node s s' hrun
        simp only [climbAt, run_bind, run_pendingOperator] at hrun
        cases hpending : s.pending power with
        | none =>
            simp only [hpending] at hrun
            obtain ⟨rfl, rfl⟩ := pure_eq_ok.mp hrun
            exact .climbStop hpending
        | some next =>
            simp only [hpending] at hrun
            exact absurd hrun failWith_ne_ok
  | succ levels ih =>
      obtain ⟨hinner, hclimb⟩ := ih
      refine ⟨⟨?_, ?_⟩, ?_⟩
      · intro power s s' node hrun
        simp only [expressionAt, nested_eq_ok, bind_eq_ok, enterNesting_eq_ok, get_eq_ok] at hrun
        obtain ⟨_, ⟨_, _, ⟨hdepth, rfl⟩, _, _, ⟨rfl, rfl⟩, hrun⟩, rfl⟩ := hrun
        cases hform : s.kind.operandForm? with
        | none =>
            simp only [State.kind_entered, hform] at hrun
            obtain ⟨hboundary, rfl, rfl⟩ := missingExpression_eq_ok.mp hrun
            exact .gap hdepth hform hboundary rfl
        | some form =>
            simp only [State.kind_entered, hform, bind_eq_ok] at hrun
            obtain ⟨left, s₁, hleft, hrest⟩ := hrun
            exact .expression hdepth hform (reads_of_operand hinner (s := s.entered) hform hleft)
              (hclimb hrest)
      · intro s s' node hrun
        simp only [blockAt, nested_eq_ok, bind_eq_ok, enterNesting_eq_ok, blockOf, expect_eq_ok,
          delimited_eq_ok, get_eq_ok, run_ite] at hrun
        obtain ⟨_, ⟨_, _, ⟨hdepth, rfl⟩, _, _, ⟨hopener, rfl, rfl⟩, body, _, ⟨s₁, hbody, rfl⟩, _, _,
          ⟨rfl, rfl⟩, hrun⟩, rfl⟩ := hrun
        have hread := reads_of_statementList (reads_of_statementIn hinner)
          (fun hfail => ⟨levels, hfail⟩) hbody
        split at hrun
        · rename_i hclosing
          simp only [bind_eq_ok, advance_eq_ok, pure_eq_ok] at hrun
          obtain ⟨_, _, ⟨rfl, rfl⟩, rfl, rfl⟩ := hrun
          exact .block hdepth hopener hread hclosing
        · rename_i hclosing
          simp only [bind_eq_ok, report_eq_ok, get_eq_ok, pure_eq_ok] at hrun
          obtain ⟨_, _, rfl, _, _, ⟨rfl, rfl⟩, rfl, rfl⟩ := hrun
          exact .openBlock hdepth hopener hread hclosing rfl
      · intro power left node s s' hrun
        simp only [climbAt, run_bind (pendingOperator power), run_pendingOperator] at hrun
        cases hpending : s.pending power with
        | none =>
            simp only [hpending] at hrun
            obtain ⟨rfl, rfl⟩ := pure_eq_ok.mp hrun
            exact .climbStop hpending
        | some next =>
            obtain ⟨next, form⟩ := next
            simp only [hpending, bind_eq_ok, enterNesting_eq_ok] at hrun
            obtain ⟨_, _, ⟨hdepth, rfl⟩, folded, s₁, hfolded, hrest⟩ := hrun
            have hform : s.kind.operatorForm? = some (next, form) :=
              (Option.filter_eq_some_iff.mp hpending).1
            exact .climbFold hpending hdepth
              (reads_of_continuation hinner (s := s.entered) hform hfolded) (hclimb hrest)

theorem reads_of_statement {s s' : State} {node : Node} (hrun : statement s = .ok node s') :
    Reads false .statement [node] s s' :=
  reads_of_statementIn (reads_of_levels (nestingLimit - s.depth)).1 hrun

/-- The statements of a source and of its blocks are read by the grammar. -/
theorem reads_of_statements {inBlock : Bool} {s s' : State} {body : List Node}
    (hrun : statementList statement inBlock s = .ok body s') :
    Reads false (.statements inBlock) body s s' := by
  refine reads_of_statementList reads_of_statement ?_ hrun
  intro s s' e hrun
  exact ⟨nestingLimit - s.depth, hrun⟩

end ScriptSyntax.Parser
