import ScriptSyntax.Proofs.Parsing.Respects
import ScriptSyntax.Proofs.Tree.Moved

/-!
Every form of the grammar does the same in two runs over corresponding tokens:
`Pairing.respects_statementIn` for a statement and `Pairing.respects_statementList` for a list of them.
-/

namespace ScriptSyntax

namespace Pairing

open ScriptSyntax.Parser

variable {pairing : Pairing}

/-! ### Lists -/

section
variable {item : Parser Node} (hitem : pairing.Respects item item)
include hitem

theorem respects_itemsWithin {slots slots' : List Slot} (hslots : List.Forall₂ pairing.Slots slots slots')
    {nodes nodes' : List Node} (hnodes : List.Forall₂ pairing.Nodes nodes nodes') :
    pairing.Respects (itemsWithin item nodes slots) (itemsWithin item nodes' slots') := by
  induction hslots generalizing nodes nodes' with
  | nil => exact .pure (List.rel_reverse hnodes)
  | cons _ _ ih =>
      apply Respects.get
      intro s t h
      rw [h.kind]
      split
      · refine Respects.advance.bind (fun _ _ _ => .bind .skipNewlines fun _ _ _ => ?_) s t h
        refine hitem.bind fun next next' hnext => .bind .skipNewlines fun _ _ _ => ?_
        exact ih (.cons hnext hnodes)
      · exact .ok (List.rel_reverse hnodes) h

theorem respects_items : pairing.Respects (items item) (items item) := by
  refine hitem.bind fun first first' hfirst => .bind .skipNewlines fun _ _ _ => ?_
  apply Respects.get
  intro s t h
  exact respects_itemsWithin hitem h.rest (.cons hfirst .nil) s t h

theorem respects_itemsBefore (closer : TokenKind) :
    pairing.Respects (itemsBefore closer item) (itemsBefore closer item) := by
  apply Respects.get
  intro s t h
  rw [h.kind]
  split
  · exact .ok .nil h
  · exact respects_items hitem s t h

theorem respects_bracketed (opener closer : TokenKind) (expressionList : Bool) :
    pairing.Respects (bracketed opener closer expressionList item)
      (bracketed opener closer expressionList item) := by
  rw [bracketed_eq]
  refine .bind (.expect opener) fun first first' hfirst => .delimited closer expressionList ?_
  refine .bind .skipNewlines fun _ _ _ => .bind (respects_itemsBefore hitem closer) ?_
  intro nodes nodes' hnodes
  exact .bind (.expect closer) fun last last' hlast => .pure ⟨hnodes, hfirst.span.through hlast.span⟩

end

/-! ### Expressions -/

structure RespectsInner (pairing : Pairing) (inner : Inner) : Prop where
  expression : ∀ power, pairing.Respects (inner.expression power) (inner.expression power)
  block : pairing.Respects inner.block inner.block

theorem leaf (kind : NodeKind) {token token' : Token} (h : pairing.Tokens token token') :
    pairing.Nodes (Node.leaf kind token.span token.text) (Node.leaf kind token'.span token'.text) := by
  rw [h.text]
  exact .node h.span .nil

theorem respects_missingExpression : pairing.Respects missingExpression missingExpression := by
  apply Respects.get
  intro s t h
  rw [h.atBoundary]
  split
  · exact .ok (.node (.empty h.place) .nil) h.reported_gap
  · exact .error h.missingExpression h

theorem respects_literal : pairing.Respects literal literal := by
  apply Respects.get
  intro s t h
  rw [h.kind]
  cases literalKind? t.kind with
  | none => exact Respects.unexpected _ s t h
  | some kind => exact .ok (leaf kind h.current) h.advanced

theorem respects_identifier : pairing.Respects identifier identifier :=
  .bind (.expect .identifier) fun _ _ htoken => .pure (leaf _ htoken)

theorem respects_parameterList : pairing.Respects parameterList parameterList :=
  .bind (respects_bracketed respects_identifier _ _ _) fun _ _ hnames =>
    .pure (.node hnames.2 hnames.1)

section
variable {inner : Inner} (hinner : pairing.RespectsInner inner)
include hinner

theorem respects_arguments : pairing.Respects (arguments inner) (arguments inner) :=
  respects_bracketed (hinner.expression .lowest) _ _ _

theorem respects_nameOrCall : pairing.Respects (nameOrCall inner) (nameOrCall inner) := by
  refine .bind respects_identifier fun name name' hname => .get fun s t h => ?_
  rw [h.kind]
  split
  · refine (respects_arguments hinner).bind (fun values values' hvalues => ?_) s t h
    exact .pure (.node (hname.span.through hvalues.2) (.cons hname hvalues.1))
  · exact .ok hname h

theorem respects_macroCall : pairing.Respects (macroCall inner) (macroCall inner) := by
  refine .bind .advance fun sigil sigil' hsigil => ?_
  refine .bind respects_identifier fun name name' hname => .get fun s t h => ?_
  rw [h.kind, hsigil.text]
  split
  · refine (respects_arguments hinner).bind (fun values values' hvalues => ?_) s t h
    exact .pure (.node (hsigil.span.through hvalues.2) (.cons hname hvalues.1))
  · exact Respects.unexpected _ s t h

theorem respects_array : pairing.Respects (array inner) (array inner) :=
  .bind (respects_bracketed (hinner.expression .lowest) _ _ _) fun _ _ helements =>
    .pure (.node helements.2 helements.1)

theorem respects_keyValuePair : pairing.Respects (keyValuePair inner) (keyValuePair inner) := by
  apply Respects.get
  intro s t h
  rw [h.kind]
  split
  · refine respects_literal.bind (fun key key' hkey => ?_) s t h
    refine .bind (.expect .colon) fun _ _ _ => .bind .skipNewlines fun _ _ _ => ?_
    refine .bind (hinner.expression .lowest) fun value value' hvalue => ?_
    exact .pure (.node (hkey.span.through hvalue.span) (.cons hkey (.cons hvalue .nil)))
  · exact Respects.unexpected _ s t h

theorem respects_object : pairing.Respects (object inner) (object inner) :=
  .bind (respects_bracketed (respects_keyValuePair hinner) _ _ _) fun _ _ hentries =>
    .pure (.node hentries.2 hentries.1)

theorem respects_lambda : pairing.Respects (lambda inner) (lambda inner) := by
  refine .bind .advance fun opening opening' hopening => ?_
  refine .bind respects_parameterList fun parameters parameters' hparameters => ?_
  refine .bind hinner.block fun body body' hbody => ?_
  exact .pure (.node (hopening.span.through hbody.span) (.cons hparameters (.cons hbody .nil)))

theorem respects_awaitExpr : pairing.Respects (awaitExpr inner) (awaitExpr inner) := by
  refine .bind .advance fun opening opening' hopening => ?_
  refine .bind (hinner.expression .unary) fun operand operand' hoperand => ?_
  exact .pure (.node (hopening.span.through hoperand.span) (.cons hoperand .nil))

theorem respects_bang : pairing.Respects (bang inner) (bang inner) := by
  refine .bind .advance fun operator operator' hoperator => ?_
  refine .bind (hinner.expression .unary) fun operand operand' hoperand => ?_
  rw [hoperator.text]
  exact .pure (.node (hoperator.span.through hoperand.span) (.cons hoperand .nil))

omit hinner in
theorem respects_lexicalError : pairing.Respects lexicalError lexicalError := by
  refine .bind .advance fun token token' htoken => ?_
  rw [htoken.kind, htoken.text]
  have hgap : pairing.Nodes (Node.error token.span []) (Node.error token'.span []) :=
    .node htoken.span .nil
  cases token'.kind with
  | error e => exact .bind (.report (Alike.lexical htoken.span)) fun _ _ _ => .pure hgap
  | _ => exact .pure hgap

theorem respects_operand (form : OperandForm) :
    pairing.Respects (operand inner form) (operand inner form) := by
  cases form with
  | literal => exact respects_literal
  | name => exact respects_nameOrCall hinner
  | array => exact respects_array hinner
  | object => exact respects_object hinner
  | lambda => exact respects_lambda hinner
  | macroCall => exact respects_macroCall hinner
  | awaitExpr => exact respects_awaitExpr hinner
  | bang => exact respects_bang hinner
  | lexicalError => exact respects_lexicalError

theorem respects_rightOperand (power : BindingPower) :
    pairing.Respects (rightOperand inner power) (rightOperand inner power) := by
  refine .bind .advance fun operator operator' hoperator => .bind .skipNewlines fun _ _ _ => ?_
  exact .bind (hinner.expression power) fun right right' hright => .pure ⟨hoperator, hright⟩

section
variable {left left' : Node} (hleft : pairing.Nodes left left')
include hleft

theorem respects_subscript : pairing.Respects (subscript inner left) (subscript inner left') := by
  refine .bind .advance fun _ _ _ => .delimited _ _ ?_
  refine .bind .skipNewlines fun _ _ _ => .bind (hinner.expression .lowest) fun index index' hindex => ?_
  refine .bind .skipNewlines fun _ _ _ => .bind (.expect .rightBracket) fun closing closing' hclosing => ?_
  exact .pure (.node (hleft.span.through hclosing.span) (.cons hleft (.cons hindex .nil)))

theorem respects_continuation (power : BindingPower) (form : OperatorForm) :
    pairing.Respects (continuation inner power left form) (continuation inner power left' form) := by
  -- what is read before an operator and behind it makes up the operation
  have hoperation : ∀ {kind : NodeKind} {literal : Option String} {right right' : Node},
      pairing.Nodes right right' →
        pairing.Nodes ⟨kind, [left, right], left.span.through right.span, literal⟩
          ⟨kind, [left', right'], left'.span.through right'.span, literal⟩ :=
    fun hright => .node (hleft.span.through hright.span) (.cons hleft (.cons hright .nil))
  cases form with
  | binary =>
      refine .bind (respects_rightOperand hinner power) fun read read' hread => ?_
      obtain ⟨operator, right⟩ := read
      obtain ⟨operator', right'⟩ := read'
      obtain ⟨hoperator, hright⟩ := hread
      simp only [show operator.text = operator'.text from hoperator.text]
      exact .pure (hoperation hright)
  | membership => exact .bind (respects_rightOperand hinner power) fun _ _ h => .pure (hoperation h.2)
  | range => exact .bind (respects_rightOperand hinner power.weaker) fun _ _ h => .pure (hoperation h.2)
  | member => exact .bind (respects_rightOperand hinner power) fun _ _ h => .pure (hoperation h.2)
  | subscript => exact respects_subscript hinner hleft

end

/-! ### Statements -/

omit hinner in
theorem respects_checkedTarget (kind : NodeKind) {target target' : Node}
    (htarget : pairing.Nodes target target') :
    pairing.Respects (checkedTarget kind target) (checkedTarget kind target') := by
  unfold checkedTarget
  rw [htarget.isValidTarget, htarget.isError, htarget.kind]
  split
  · exact .pure htarget
  · refine .bind (.report (.same nofun htarget.span)) fun _ _ _ => ?_
    exact .pure htarget.errorWrapping

theorem respects_assignmentOrExpression :
    pairing.Respects (assignmentOrExpression inner) (assignmentOrExpression inner) := by
  refine .bind (hinner.expression .assignment) fun target target' htarget => .get fun s t h => ?_
  rw [h.kind]
  cases assignmentKind? t.kind with
  | none => exact .ok (.node htarget.span (.cons htarget .nil)) h
  | some kind =>
      refine Respects.advance.bind (fun operator operator' hoperator => ?_) s t h
      refine .bind (hinner.expression .assignment) fun value value' hvalue => ?_
      refine .bind (respects_checkedTarget kind htarget) fun checked checked' hchecked => ?_
      rw [hoperator.text]
      exact .pure (.node (hchecked.span.through hvalue.span) (.cons hchecked (.cons hvalue .nil)))

omit hinner in
theorem respects_asyncWord : pairing.Respects asyncWord asyncWord := by
  apply Respects.get
  intro s t h
  rw [h.kind]
  split
  · exact .ok rfl h.advanced
  · exact .ok rfl h

omit hinner in
theorem respects_laterAsyncWord (before : Bool) :
    pairing.Respects (laterAsyncWord before) (laterAsyncWord before) := by
  unfold laterAsyncWord
  split
  · exact .pure rfl
  · exact respects_asyncWord

theorem respects_functionDecl : pairing.Respects (functionDecl inner) (functionDecl inner) := by
  rw [functionDecl_eq]
  refine .get fun s t h => ?_
  refine respects_asyncWord.bind (fun before before' hbefore => ?_) s t h
  cases hbefore
  refine .bind (.expect _) fun _ _ _ => .bind (respects_laterAsyncWord before) ?_
  intro isAsync isAsync' hasync
  cases hasync
  refine .bind respects_identifier fun name name' hname => ?_
  refine .bind respects_parameterList fun parameters parameters' hparameters => ?_
  refine .bind hinner.block fun body body' hbody => .get fun s' t' h' => ?_
  exact .ok (.node (h'.spanFrom h.place) (.cons hname (.cons hparameters (.cons hbody .nil)))) h'

theorem respects_functionStmt : pairing.Respects (functionStmt inner) (functionStmt inner) := by
  apply Respects.get
  intro s t h
  rw [h.kind, h.kind_peek]
  split
  · exact respects_assignmentOrExpression hinner s t h
  · exact respects_functionDecl hinner s t h

theorem respects_macroDecl : pairing.Respects (macroDecl inner) (macroDecl inner) := by
  refine .bind .advance fun opening opening' hopening => ?_
  refine .bind respects_identifier fun name name' hname => ?_
  refine .bind respects_parameterList fun parameters parameters' hparameters => ?_
  refine .bind hinner.block fun body body' hbody => ?_
  exact .pure (.node (hopening.span.through hbody.span)
    (.cons hname (.cons hparameters (.cons hbody .nil))))

theorem respects_structField : pairing.Respects (structField inner) (structField inner) := by
  refine .bind respects_identifier fun name name' hname => .bind (.expect _) fun _ _ _ => ?_
  refine .bind (hinner.expression .lowest) fun value value' hvalue => ?_
  exact .pure (.node (hname.span.through hvalue.span) (.cons hname (.cons hvalue .nil)))

omit hinner in
theorem respects_checkedField (seenMethod : Bool) {field field' : Node}
    (hfield : pairing.Nodes field field') :
    pairing.Respects (checkedField seenMethod field) (checkedField seenMethod field') := by
  unfold checkedField
  rw [hfield.name?]
  split
  · refine .bind (.report (.same nofun hfield.span)) fun _ _ _ => ?_
    exact .pure hfield.errorWrapping
  · exact .pure hfield

theorem respects_structMember (seenMethod : Bool) :
    pairing.Respects (structMember inner seenMethod) (structMember inner seenMethod) := by
  rw [structMember_eq]
  apply Respects.get
  intro s t h
  rw [h.kind]
  split
  · refine (respects_functionDecl hinner).bind (fun node node' hnode => ?_) s t h
    exact .pure ⟨hnode, rfl⟩
  · split
    · refine (respects_structField hinner).bind (fun field field' hfield => ?_) s t h
      refine .bind (respects_checkedField seenMethod hfield) fun node node' hnode => ?_
      exact .pure ⟨hnode, rfl⟩
    · exact Respects.unexpected _ s t h

theorem respects_structMembersWithin {opener opener' : Span} (hopener : pairing.Spans opener opener')
    {slots slots' : List Slot} (hslots : List.Forall₂ pairing.Slots slots slots') (seenMethod : Bool)
    {nodes nodes' : List Node} (hnodes : List.Forall₂ pairing.Nodes nodes nodes') :
    pairing.Respects (structMembersWithin inner opener seenMethod nodes slots)
      (structMembersWithin inner opener' seenMethod nodes' slots') := by
  induction hslots generalizing seenMethod nodes nodes' with
  | nil => exact .throw (.block hopener)
  | cons _ _ ih =>
      rw [structMembersWithin_cons, structMembersWithin_cons]
      refine .bind .skipSeparators fun _ _ _ => .get fun s t h => ?_
      rw [h.kind]
      split
      · exact .ok (List.rel_reverse hnodes) h
      · split
        · exact .error (.block hopener) h
        · refine (respects_structMember hinner seenMethod).bind (fun member member' hmember => ?_) s t h
          obtain ⟨hnode, hmethod⟩ := hmember
          refine .get fun s t h => ?_
          rw [h.atStatementEnd, show member.2 = member'.2 from hmethod]
          split
          · exact ih _ (.cons hnode hnodes) s t h
          · exact Respects.missingSeparator s t h

theorem respects_structDecl : pairing.Respects (structDecl inner) (structDecl inner) := by
  refine .bind .advance fun opening opening' hopening => ?_
  refine .bind respects_identifier fun name name' hname => ?_
  refine .bind (.expect .leftBrace) fun opener opener' hopener => ?_
  refine .bind (.delimited _ _ (.get fun s t h => ?_)) fun members members' hmembers => ?_
  · exact respects_structMembersWithin hinner hopener.span h.rest false .nil s t h
  refine .bind (.expect .rightBrace) fun closing closing' hclosing => ?_
  exact .pure (.node (hopening.span.through hclosing.span) (.cons hname hmembers))

omit hinner in
theorem respects_segmentsWithin {slots slots' : List Slot}
    (hslots : List.Forall₂ pairing.Slots slots slots') {nodes nodes' : List Node}
    (hnodes : List.Forall₂ pairing.Nodes nodes nodes') :
    pairing.Respects (segmentsWithin nodes slots) (segmentsWithin nodes' slots') := by
  induction hslots generalizing nodes nodes' with
  | nil => exact .pure (List.rel_reverse hnodes)
  | cons _ _ ih =>
      apply Respects.get
      intro s t h
      rw [h.kind]
      split
      · refine Respects.advance.bind (fun _ _ _ => ?_) s t h
        exact .bind respects_identifier fun next next' hnext => ih (.cons hnext hnodes)
      · exact .ok (List.rel_reverse hnodes) h

omit hinner in
theorem respects_segments : pairing.Respects segments segments := by
  apply Respects.get
  intro s t h
  rw [h.kind]
  split
  · refine respects_literal.bind (fun address address' haddress => ?_) s t h
    exact .pure (.cons haddress .nil)
  · refine respects_identifier.bind (fun first first' hfirst => .get fun s t h => ?_) s t h
    exact respects_segmentsWithin h.rest (.cons hfirst .nil) s t h

omit hinner in
theorem respects_importPath : pairing.Respects importPath importPath := by
  refine .bind (.expect _) fun scheme scheme' hscheme => .bind (.expect _) fun _ _ _ => ?_
  refine .bind respects_segments fun parts parts' hparts => .get fun s t h => ?_
  rw [hscheme.text]
  have hpath : pairing.Nodes
      ⟨.importPath, parts, s.spanFrom scheme.span.start, some scheme'.text⟩
      ⟨.importPath, parts', t.spanFrom scheme'.span.start, some scheme'.text⟩ :=
    .node (h.spanFrom hscheme.span.start) hparts
  have herror : pairing.Errors ⟨.unknownScheme scheme'.text, scheme.span⟩
      ⟨.unknownScheme scheme'.text, scheme'.span⟩ := .same nofun hscheme.span
  split
  · exact .ok hpath h
  · exact Respects.bind (.report herror) (fun _ _ _ => .pure hpath.errorWrapping) s t h

omit hinner in
theorem respects_importedNames : pairing.Respects importedNames importedNames := by
  refine .bind (respects_bracketed respects_identifier _ _ _) fun names names' hnames => ?_
  obtain ⟨names, span⟩ := names
  obtain ⟨names', span'⟩ := names'
  obtain ⟨hnames, hspan⟩ := hnames
  have hempty : names.isEmpty = names'.isEmpty := by
    cases hnames with
    | nil => rfl
    | cons => rfl
  simp only [hempty]
  split
  · exact .throw (.same nofun hspan)
  · exact .pure hnames

omit hinner in
theorem respects_pathImport : pairing.Respects pathImport pathImport := by
  refine .bind respects_importPath fun path path' hpath => .get fun s t h => ?_
  rw [h.kind]
  split
  · refine Respects.advance.bind (fun _ _ _ => ?_) s t h
    exact .bind respects_identifier fun name name' hname => .pure (.cons hpath (.cons hname .nil))
  · exact .ok (.cons hpath .nil) h

omit hinner in
theorem respects_nameImport : pairing.Respects nameImport nameImport := by
  refine .bind respects_importedNames fun names names' hnames => .bind (.expect _) fun _ _ _ => ?_
  refine .bind respects_importPath fun path path' hpath => ?_
  exact .pure (List.rel_append hnames (.cons hpath .nil))

omit hinner in
theorem respects_importStmt : pairing.Respects importStmt importStmt := by
  refine .bind .advance fun opening opening' hopening => .get fun s t h => ?_
  rw [h.kind]
  have hstmt : ∀ parts parts', List.Forall₂ pairing.Nodes parts parts' →
      pairing.Respects
        (do return Node.branch .importStmt ((← get).spanFrom opening.span.start) parts)
        (do return Node.branch .importStmt ((← get).spanFrom opening'.span.start) parts') :=
    fun parts parts' hparts => .get fun s t h =>
      .ok (.node (h.spanFrom hopening.span.start) hparts) h
  split
  · exact respects_nameImport.bind hstmt s t h
  · exact respects_pathImport.bind hstmt s t h

theorem respects_forStmt : pairing.Respects (forStmt inner) (forStmt inner) := by
  refine .bind .advance fun opening opening' hopening => ?_
  refine .bind (hinner.expression .lowest) fun condition condition' hcondition => ?_
  refine .bind hinner.block fun body body' hbody => ?_
  exact .pure (.node (hopening.span.through hbody.span) (.cons hcondition (.cons hbody .nil)))

theorem respects_clause (isElse : Bool) : pairing.Respects (clause inner isElse) (clause inner isElse) := by
  refine .bind .advance fun opening opening' hopening => ?_
  split
  · refine .bind hinner.block fun body body' hbody => ?_
    exact .pure ⟨hopening, .node (hopening.span.through hbody.span) (.cons hbody .nil)⟩
  · refine .bind (hinner.expression .lowest) fun condition condition' hcondition => ?_
    refine .bind hinner.block fun body body' hbody => ?_
    exact .pure ⟨hopening, .node (hopening.span.through hbody.span) (.cons hcondition (.cons hbody .nil))⟩

omit hinner in
theorem respects_checkedClause (seenElse isElse : Bool) {opening opening' : Token} {node node' : Node}
    (hopening : pairing.Tokens opening opening') (hnode : pairing.Nodes node node') :
    pairing.Respects (checkedClause seenElse isElse opening node)
      (checkedClause seenElse isElse opening' node') := by
  have herror : pairing.Errors
      ⟨if isElse then .duplicateElse else .elifAfterElse, opening.span⟩
      ⟨if isElse then .duplicateElse else .elifAfterElse, opening'.span⟩ := by
    cases isElse
    · exact .same nofun hopening.span
    · exact .same nofun hopening.span
  unfold checkedClause
  split
  · exact .bind (.report herror) fun _ _ _ => .pure hnode.errorWrapping
  · exact .pure hnode

theorem respects_clausesWithin {slots slots' : List Slot}
    (hslots : List.Forall₂ pairing.Slots slots slots') (seenElse : Bool) {nodes nodes' : List Node}
    (hnodes : List.Forall₂ pairing.Nodes nodes nodes') :
    pairing.Respects (clausesWithin inner seenElse nodes slots)
      (clausesWithin inner seenElse nodes' slots') := by
  induction hslots generalizing seenElse nodes nodes' with
  | nil => exact .pure (List.rel_reverse hnodes)
  | cons _ _ ih =>
      apply Respects.get
      intro s t h
      rw [h.kindPastNewlines]
      cases clauseKind? t.kindPastNewlines with
      | none => exact .ok (List.rel_reverse hnodes) h
      | some isElse =>
          refine Respects.skipNewlines.bind (fun _ _ _ => ?_) s t h
          refine .bind (respects_clause hinner isElse) fun read read' hread => ?_
          refine .bind (respects_checkedClause seenElse isElse hread.1 hread.2) fun node node' hnode => ?_
          exact ih _ (.cons hnode hnodes)

theorem respects_ifStmt : pairing.Respects (ifStmt inner) (ifStmt inner) := by
  refine .bind .advance fun opening opening' hopening => ?_
  refine .bind (hinner.expression .lowest) fun condition condition' hcondition => ?_
  refine .bind hinner.block fun body body' hbody => .get fun s t h => ?_
  refine (respects_clausesWithin hinner h.rest false .nil).bind (fun clauses clauses' hclauses => ?_) s t h
  apply Respects.get
  intro s t h
  exact .ok (.node (h.spanFrom hopening.span.start) (.cons hcondition (.cons hbody hclauses))) h

theorem respects_returnStmt : pairing.Respects (returnStmt inner) (returnStmt inner) := by
  refine .bind .advance fun opening opening' hopening => .get fun s t h => ?_
  rw [h.atStatementEnd]
  split
  · exact .ok (.node hopening.span .nil) h
  · refine (hinner.expression .lowest).bind (fun value value' hvalue => ?_) s t h
    exact .pure (.node (hopening.span.through hvalue.span) (.cons hvalue .nil))

theorem respects_statementOf (form : StatementForm) :
    pairing.Respects (statementOf inner form) (statementOf inner form) := by
  cases form with
  | functionDecl => exact respects_functionStmt hinner
  | macroDecl => exact respects_macroDecl hinner
  | structDecl => exact respects_structDecl hinner
  | importStmt => exact respects_importStmt
  | forStmt => exact respects_forStmt hinner
  | ifStmt => exact respects_ifStmt hinner
  | returnStmt => exact respects_returnStmt hinner

theorem respects_statementIn : pairing.Respects (statementIn inner) (statementIn inner) := by
  apply Respects.get
  intro s t h
  rw [h.current.kind]
  refine (Respects.log _ _).bind (fun _ _ _ => ?_) s t h
  cases t.current.kind.statementForm? with
  | none => exact respects_assignmentOrExpression hinner
  | some form => exact respects_statementOf hinner form

end

/-! ### Lists of statements -/

theorem respects_requireSeparator (inBlock : Bool) :
    pairing.Respects (requireSeparator inBlock) (requireSeparator inBlock) := by
  apply Respects.get
  intro s t h
  rw [h.kind, h.atListEnd]
  split
  · refine Respects.skipSeparators.bind (fun _ _ _ => ?_) s t h
    exact .pure .none
  · split
    · exact .ok .none h
    · refine (Respects.report h.missingSeparator).bind (fun _ _ _ => ?_) s t h
      exact .bind (.recover h.mark inBlock) fun node node' hnode => .pure (.some hnode)

section
variable {statement : Parser Node} (hstatement : pairing.Respects statement statement)
include hstatement

theorem respects_statementOrError (inBlock : Bool) :
    pairing.Respects (statementOrError statement inBlock) (statementOrError statement inBlock) := by
  apply Respects.get
  intro s t h
  refine hstatement.attempt.bind (fun outcome outcome' houtcome => ?_) s t h
  match outcome, outcome', houtcome with
  | .ok node, .ok node', hnode =>
      refine .bind (respects_requireSeparator inBlock) fun behind behind' hbehind => ?_
      cases hbehind with
      | none => exact .pure (.cons hnode .nil)
      | some hbroken => exact .pure (.cons hnode (.cons hbroken .nil))
  | .error e, .error e', herror =>
      refine .bind (.report herror) fun _ _ _ => ?_
      exact .bind (.recover h.mark inBlock) fun node node' hnode => .pure (.cons hnode .nil)

theorem respects_statementsWithin (inBlock : Bool) {slots slots' : List Slot}
    (hslots : List.Forall₂ pairing.Slots slots slots') {nodes nodes' : List Node}
    (hnodes : List.Forall₂ pairing.Nodes nodes nodes') :
    pairing.Respects (statementsWithin statement inBlock nodes slots)
      (statementsWithin statement inBlock nodes' slots') := by
  induction hslots generalizing nodes nodes' with
  | nil => exact .pure (List.rel_reverse hnodes)
  | cons _ _ ih =>
      refine .bind .skipSeparators fun _ _ _ => .get fun s t h => ?_
      rw [h.atListEnd]
      split
      · exact .ok (List.rel_reverse hnodes) h
      · refine (respects_statementOrError hstatement inBlock).bind (fun read read' hread => ?_) s t h
        exact ih (List.rel_append (List.rel_reverse hread) hnodes)

theorem respects_statementList (inBlock : Bool) :
    pairing.Respects (statementList statement inBlock) (statementList statement inBlock) := by
  apply Respects.get
  intro s t h
  exact respects_statementsWithin hstatement inBlock h.rest .nil s t h

theorem respects_blockOf : pairing.Respects (blockOf statement) (blockOf statement) := by
  refine .bind (.expect _) fun opener opener' hopener => ?_
  refine .bind (.delimited _ _ (respects_statementList hstatement true)) fun body body' hbody => ?_
  apply Respects.get
  intro s t h
  rw [h.kind]
  split
  · refine Respects.advance.bind (fun closing closing' hclosing => ?_) s t h
    exact .pure (.node (hopener.span.through hclosing.span) hbody)
  · refine (Respects.report (.block hopener.span)).bind (fun _ _ _ => .get fun s t h => ?_) s t h
    exact .ok (.node (h.spanFrom hopener.span.start) hbody) h

end

/-! ### Nesting -/

theorem respects_pendingOperator (power : BindingPower) :
    pairing.Respects (pendingOperator power) (pendingOperator power) := by
  apply Respects.get
  intro s t h
  rw [h.kind]
  cases t.kind.operatorForm? with
  | none => exact .ok rfl h
  | some next => exact .ok rfl h

theorem respects_levels (levels : Nat) :
    (∀ power, pairing.Respects (expressionAt levels power) (expressionAt levels power)) ∧
      (∀ power left left', pairing.Nodes left left' →
        pairing.Respects (climbAt levels power left) (climbAt levels power left')) ∧
      pairing.Respects (blockAt levels) (blockAt levels) := by
  induction levels with
  | zero =>
      refine ⟨fun power => ?_, fun power left left' hleft => ?_, ?_⟩
      · unfold expressionAt
        exact .nestingTooDeep
      · unfold climbAt
        refine .bind (respects_pendingOperator power) fun pending pending' hpending => ?_
        cases hpending
        cases pending with
        | none => exact .pure hleft
        | some next => exact .nestingTooDeep
      · unfold blockAt
        exact .nestingTooDeep
  | succ levels ih =>
      obtain ⟨hexpression, hclimb, hblock⟩ := ih
      have hinner : pairing.RespectsInner ⟨expressionAt levels, blockAt levels⟩ := ⟨hexpression, hblock⟩
      refine ⟨fun power => ?_, fun power left left' hleft => ?_, ?_⟩
      · unfold expressionAt
        refine .nested (.bind .enterNesting fun _ _ _ => .get fun s t h => ?_)
        rw [h.kind]
        cases t.kind.operandForm? with
        | none => exact respects_missingExpression s t h
        | some form => exact (respects_operand hinner form).bind (hclimb power) s t h
      · unfold climbAt
        refine .bind (respects_pendingOperator power) fun pending pending' hpending => ?_
        cases hpending
        cases pending with
        | none => exact .pure hleft
        | some next =>
            refine .bind .enterNesting fun _ _ _ => ?_
            exact .bind (respects_continuation hinner hleft _ _) (hclimb power)
      · unfold blockAt
        exact .nested (.bind .enterNesting fun _ _ _ => respects_blockOf (respects_statementIn hinner))

theorem respects_statement : pairing.Respects statement statement := by
  apply Respects.get
  intro s t h
  obtain ⟨hexpression, -, hblock⟩ := @respects_levels pairing (nestingLimit - t.depth)
  rw [h.depth]
  exact respects_statementIn ⟨hexpression, hblock⟩ s t h

/-! ### Results -/

theorem Alike.statements {s t s' t' : State} {body body' : List Node} (h : pairing.Alike s t)
    (hs : statementList statement false s = .ok body s')
    (ht : statementList statement false t = .ok body' t') :
    List.Forall₂ pairing.Nodes body body' ∧ pairing.Alike s' t' := by
  have hrun := respects_statementList respects_statement false s t h
  rw [hs, ht] at hrun
  cases hrun with
  | ok hvalue hstates => exact ⟨hvalue, hstates⟩

section
variable {f g : Position → Position} (hstart : ∀ p q, pairing.start p q → f p = g q)
  (hstop : ∀ p q, pairing.stop p q → f p = g q)
include hstart hstop

theorem Spans.mapPositions {span span' : Span} (h : pairing.Spans span span') :
    span.mapPositions f = span'.mapPositions g := by
  rw [Span.mapPositions, Span.mapPositions, hstart _ _ h.start, hstop _ _ h.stop]

theorem Nodes.mapPositions {n n' : Node} (h : pairing.Nodes n n') :
    n.mapPositions f = n'.mapPositions g := by
  induction n generalizing n' with
  | node kind children span literal ih =>
      cases h with
      | node hspan hchildren =>
          rw [Node.mapPositions_mk, Node.mapPositions_mk, hspan.mapPositions hstart hstop]
          congr 1
          induction hchildren with
          | nil => rfl
          | cons hchild _ ihchildren =>
              obtain ⟨hfirst, hlater⟩ := List.forall_mem_cons.mp ih
              rw [List.map_cons, List.map_cons, hfirst hchild, ihchildren hlater]

theorem map_mapPositions {nodes nodes' : List Node} (h : List.Forall₂ pairing.Nodes nodes nodes') :
    nodes.map (·.mapPositions f) = nodes'.map (·.mapPositions g) := by
  induction h with
  | nil => rfl
  | cons hnode _ ih => rw [List.map_cons, List.map_cons, hnode.mapPositions hstart hstop, ih]

end

end Pairing

end ScriptSyntax
