import ScriptSyntax.Proofs.Parsing.Agrees
import ScriptSyntax.Proofs.Parsing.Reading

/-!
No form of the grammar sees past a cut: `Cut.local_statementIn` for a statement and
`Cut.local_statementList` for a list of them.
-/

namespace ScriptSyntax

namespace Cut

open ScriptSyntax.Parser

variable {cut : Cut}

theorem Alike.holds_next {s t : State} (h : cut.Alike s t) : cut.holds t.current.span.start := by
  rw [← h.current]
  exact h.holds_current

/-! ### Lists -/

theorem local_moreItems {item : Parser Node} [Forward item] (hitem : cut.Local item) :
    cut.Local (moreItems item) := by
  refine .loop fun s t h ih => ?_
  rw [moreItems_eq]
  simp only [run_bind (get : Parser State), run_get, h.kind]
  split
  · rename_i hcomma
    refine (Local.advance s t h).bind fun _ s₁ t₁ hs₁ _ _ h₁ => ?_
    refine (Local.skipNewlines s₁ t₁ h₁).bind fun _ s₂ t₂ hs₂ _ _ h₂ => ?_
    refine (hitem s₂ t₂ h₂).bind fun next s₃ t₃ hs₃ _ _ h₃ => ?_
    refine (Local.skipNewlines s₃ t₃ h₃).bind fun _ s₄ t₄ hs₄ _ _ h₄ => ?_
    have hshorter : s₄.rest.length < s.rest.length := by
      cases hs₁
      have hadvanced := State.length_advanced (s := s) (by rw [h.kind, hcomma]; nofun)
      have hbefore := (Forward.advances_of_ok _ hs₂).length_le
      have hitem := (Forward.advances_of_ok _ hs₃).length_le
      have hbehind := (Forward.advances_of_ok _ hs₄).length_le
      omega
    refine (ih s₄ t₄ hshorter h₄).bind fun more s₅ t₅ _ _ _ h₅ => ?_
    exact .ok trivial h₅
  · exact .ok trivial h

theorem local_items {item : Parser Node} [Forward item] (hitem : cut.Local item) :
    cut.Local (items item) := by
  refine .bind hitem fun first _ => .bind .skipNewlines fun _ _ => .get fun s t h => ?_
  simp only [itemsWithin_eq_map _ [first], map_eq_pure_bind]
  have hmore : cut.Agrees (itemsWithin item [] s.rest s) (itemsWithin item [] t.rest t) :=
    local_moreItems hitem s t h
  exact hmore.bind fun more s' t' _ _ _ h' => .ok trivial h'

theorem local_itemsBefore {item : Parser Node} [Forward item] (hitem : cut.Local item)
    (closer : TokenKind) : cut.Local (itemsBefore closer item) := by
  refine .get fun s t h => ?_
  rw [h.kind]
  split
  · exact .ok trivial h
  · exact local_items hitem s t h

theorem local_bracketed {item : Parser Node} [Forward item] (hitem : cut.Local item)
    (opener closer : TokenKind) (expressionList : Bool) :
    cut.Local (bracketed opener closer expressionList item) := by
  rw [bracketed_eq]
  refine .bind (.expect opener) fun first hfirst => .delimited closer expressionList ?_
  refine .bind .skipNewlines fun _ _ => .bind (local_itemsBefore hitem closer) fun nodes _ => ?_
  exact .bind (.expect closer) fun last _ => .pure ⟨trivial, hfirst⟩

/-! ### Expressions -/

structure LocalInner (cut : Cut) (inner : Inner) : Prop where
  expression : ∀ power, cut.Local (inner.expression power)
  block : cut.Local inner.block
  /-- A block begins with a brace. -/
  opens : ∀ {s s' : State} {body : Node}, inner.block s = .ok body s' → s.kind = .leftBrace

theorem local_missingExpression : cut.Local missingExpression := by
  refine .get fun s t h => ?_
  simp only [h.atBoundary, h.missingExpression, h.slot, h.current]
  split
  · refine Agrees.bind (Local.reportDiagnostic ?_ s t h) fun _ s' t' _ _ _ h' => .ok h.holds_next h'
    split
    · exact h.holds_next
    · exact h.holds_next
  · exact Local.failWith (fun _ _ h => h.missingExpression) (fun _ => rfl) s t h

theorem local_literal : cut.Local literal := by
  refine .get fun s t h => ?_
  rw [h.kind]
  cases literalKind? t.kind with
  | none => exact Local.unexpected _ s t h
  | some kind =>
      refine Local.bind .advance (fun token htoken => ?_) s t h
      exact .pure htoken

theorem local_identifier : cut.Local identifier :=
  .bind (.expect .identifier) fun _ htoken => .pure htoken

theorem local_parameterList : cut.Local parameterList :=
  .bind (local_bracketed local_identifier _ _ _) fun _ hnames => .pure hnames.2

section
variable {inner : Inner} [Inner.Forward inner] (hinner : cut.LocalInner inner)
include hinner

theorem local_arguments : cut.Local (arguments inner) :=
  local_bracketed (hinner.expression .lowest) _ _ _

theorem local_nameOrCall : cut.Local (nameOrCall inner) := by
  refine .bind local_identifier fun name hname => .get fun s t h => ?_
  rw [h.kind]
  split
  · refine Local.bind (local_arguments hinner) (fun values _ => ?_) s t h
    exact .pure hname
  · exact .ok hname h

theorem local_macroCall : cut.Local (macroCall inner) := by
  refine .bind .advance fun sigil hsigil => .bind local_identifier fun name _ => .get fun s t h => ?_
  rw [h.kind]
  split
  · refine Local.bind (local_arguments hinner) (fun values _ => ?_) s t h
    exact .pure hsigil
  · exact Local.unexpected _ s t h

theorem local_array : cut.Local (array inner) :=
  .bind (local_bracketed (hinner.expression .lowest) _ _ _) fun _ helements => .pure helements.2

theorem local_keyValuePair : cut.Local (keyValuePair inner) := by
  refine .get fun s t h => ?_
  rw [h.kind]
  split
  · refine Local.bind local_literal (fun key hkey => ?_) s t h
    refine .bind (.expect .colon) fun _ _ => .bind .skipNewlines fun _ _ => ?_
    exact .bind (hinner.expression .lowest) fun value _ => .pure hkey
  · exact Local.unexpected _ s t h

theorem local_object : cut.Local (object inner) :=
  .bind (local_bracketed (local_keyValuePair hinner) _ _ _) fun _ hentries => .pure hentries.2

theorem local_lambda : cut.Local (lambda inner) := by
  refine .bind .advance fun opening hopening => .bind local_parameterList fun parameters _ => ?_
  exact .bind hinner.block fun body _ => .pure hopening

theorem local_awaitExpr : cut.Local (awaitExpr inner) :=
  .bind .advance fun _ hopening => .bind (hinner.expression .unary) fun _ _ => .pure hopening

theorem local_bang : cut.Local (bang inner) :=
  .bind .advance fun _ hoperator => .bind (hinner.expression .unary) fun _ _ => .pure hoperator

omit hinner [Inner.Forward inner] in
theorem local_lexicalError : cut.Local lexicalError := by
  have hafter := keeps_afterErrorToken (R := State.Advances)
  refine .bind .advance fun token htoken => ?_
  cases token.kind with
  | error e => exact .bind (.report htoken) fun _ _ => .pure htoken
  | _ => exact .pure htoken

theorem local_operand (form : OperandForm) : cut.Local (operand inner form) := by
  cases form with
  | literal => exact local_literal
  | name => exact local_nameOrCall hinner
  | array => exact local_array hinner
  | object => exact local_object hinner
  | lambda => exact local_lambda hinner
  | macroCall => exact local_macroCall hinner
  | awaitExpr => exact local_awaitExpr hinner
  | bang => exact local_bang hinner
  | lexicalError => exact local_lexicalError

theorem local_rightOperand (power : BindingPower) : cut.Local (rightOperand inner power) := by
  refine .bind .advance fun operator hoperator => .bind .skipNewlines fun _ _ => ?_
  exact .bind (hinner.expression power) fun right hright => .pure ⟨hoperator, hright⟩

theorem local_subscript {left : Node} (hleft : cut.holds left.span.start) :
    cut.Local (subscript inner left) := by
  refine .bind .advance fun _ _ => .delimited _ _ ?_
  refine .bind .skipNewlines fun _ _ => .bind (hinner.expression .lowest) fun index _ => ?_
  exact .bind .skipNewlines fun _ _ => .bind (.expect .rightBracket) fun closing _ => .pure hleft

theorem local_continuation {left : Node} (hleft : cut.holds left.span.start) (power : BindingPower)
    (form : OperatorForm) : cut.Local (continuation inner power left form) := by
  cases form with
  | binary => exact .bind (local_rightOperand hinner power) fun _ _ => .pure hleft
  | membership => exact .bind (local_rightOperand hinner power) fun _ _ => .pure hleft
  | range => exact .bind (local_rightOperand hinner power.weaker) fun _ _ => .pure hleft
  | member => exact .bind (local_rightOperand hinner power) fun _ _ => .pure hleft
  | subscript => exact local_subscript hinner hleft

/-! ### Statements -/

omit hinner [Inner.Forward inner] in
theorem local_checkedTarget {target : Node} (htarget : cut.holds target.span.start)
    (kind : NodeKind) : cut.Local (checkedTarget kind target) := by
  unfold checkedTarget
  split
  · exact .pure htarget
  · exact .bind (.report htarget) fun _ _ => .pure htarget

theorem local_assignmentOrExpression : cut.Local (assignmentOrExpression inner) := by
  have hafter := keeps_afterTarget (R := State.Advances) inner
  refine .bind (hinner.expression .assignment) fun target htarget => .get fun s t h => ?_
  rw [h.kind]
  cases assignmentKind? t.kind with
  | none => exact .ok htarget h
  | some kind =>
      refine Local.bind .advance (fun operator _ => ?_) s t h
      refine .bind (hinner.expression .assignment) fun value _ => ?_
      exact .bind (local_checkedTarget htarget kind) fun target htarget => .pure htarget

omit hinner [Inner.Forward inner] in
theorem local_asyncWord : cut.Local asyncWord := by
  refine .get fun s t h => ?_
  rw [h.kind]
  split
  · refine Local.bind .advance (fun _ _ => ?_) s t h
    exact .pure trivial
  · exact .ok trivial h

omit hinner [Inner.Forward inner] in
theorem local_laterAsyncWord (before : Bool) : cut.Local (laterAsyncWord before) := by
  unfold laterAsyncWord
  split
  · exact .pure trivial
  · exact local_asyncWord

theorem local_functionDecl : cut.Local (functionDecl inner) := by
  rw [functionDecl_eq]
  refine .get fun s t h => ?_
  simp only [h.current]
  refine (local_asyncWord s t h).bind fun before s₁ t₁ _ _ _ h₁ => ?_
  refine Local.expect_bind (by simp) (fun _ _ => ?_) s₁ t₁ h₁
  refine (local_laterAsyncWord before).later.bind fun isAsync _ => ?_
  refine local_identifier.later.bind fun name _ => local_parameterList.later.bind fun parameters _ => ?_
  refine hinner.block.later.bind fun body _ => .get fun s' t' h' hlater => ?_
  rw [h'.spanFrom hlater]
  exact .ok h.holds_next h'

theorem local_functionStmt : cut.Local (functionStmt inner) := by
  refine .get fun s t h => ?_
  rw [h.kind]
  by_cases hkind : t.kind = .keyword .fnKw
  · rw [h.kind_peek hkind]
    split
    · exact local_assignmentOrExpression hinner s t h
    · exact local_functionDecl hinner s t h
  · simp only [hkind, decide_false, Bool.false_and, Bool.false_eq_true, if_false]
    exact local_functionDecl hinner s t h

theorem local_macroDecl : cut.Local (macroDecl inner) := by
  refine .bind .advance fun opening hopening => .bind local_identifier fun name _ => ?_
  exact .bind local_parameterList fun parameters _ => .bind hinner.block fun body _ => .pure hopening

theorem local_structField : cut.Local (structField inner) := by
  refine .bind local_identifier fun name hname => .bind (.expect _) fun _ _ => ?_
  exact .bind (hinner.expression .lowest) fun value _ => .pure hname

omit hinner [Inner.Forward inner] in
theorem local_checkedField (seenMethod : Bool) {field : Node} (hfield : cut.holds field.span.start) :
    cut.Local (checkedField seenMethod field) := by
  unfold checkedField
  split
  · exact .bind (.report hfield) fun _ _ => .pure hfield
  · exact .pure hfield

theorem local_structMember (seenMethod : Bool) : cut.Local (structMember inner seenMethod) := by
  rw [structMember_eq]
  refine .get fun s t h => ?_
  rw [h.kind]
  split
  · refine Local.bind (local_functionDecl hinner) (fun node hnode => ?_) s t h
    exact .pure ⟨hnode, trivial⟩
  · split
    · refine Local.bind (local_structField hinner) (fun field hfield => ?_) s t h
      exact .bind (local_checkedField seenMethod hfield) fun node hnode => .pure ⟨hnode, trivial⟩
    · exact Local.unexpected _ s t h

set_option synthInstance.maxSize 256 in
theorem local_moreMembers {opener : Span} (hopener : cut.holds opener.start) (seenMethod : Bool) :
    cut.Local (moreMembers inner opener seenMethod) := by
  refine Local.rounds (fun seenMethod s t h ih => ?_) seenMethod
  rw [moreMembers_eq]
  refine (Local.skipSeparators s t h).bind fun _ s₁ t₁ hs₁ _ _ h₁ => ?_
  simp only [run_bind (get : Parser State), run_get, h₁.kind]
  split
  · exact .ok trivial h₁
  · split
    · exact .error hopener h₁
    · refine (local_structMember hinner seenMethod s₁ t₁ h₁).bind fun member s₂ t₂ hs₂ _ _ h₂ => ?_
      simp only [run_bind (get : Parser State), run_get, h₂.atStatementEnd]
      split
      · have hbefore := (Forward.advances_of_ok _ hs₁).length_le
        have hshorter := length_lt_of_structMember inner hs₂
        refine (ih _ s₂ t₂ (by omega) h₂).bind fun more s₃ t₃ _ _ _ h₃ => ?_
        exact .ok trivial h₃
      · exact Local.missingSeparator s₂ t₂ h₂

theorem local_structDecl : cut.Local (structDecl inner) := by
  refine .bind .advance fun opening hopening => .bind local_identifier fun name _ => ?_
  refine .bind (.expect .leftBrace) fun opener hopener => ?_
  refine .bind (.delimited _ _ (local_moreMembers hinner hopener false)) fun members _ => ?_
  exact .bind (.expect .rightBrace) fun closing _ => .pure hopening

omit hinner [Inner.Forward inner] in
theorem local_moreSegments : cut.Local moreSegments := by
  refine .loop fun s t h ih => ?_
  rw [moreSegments_eq]
  simp only [run_bind (get : Parser State), run_get, h.kind]
  split
  · rename_i hdot
    refine (Local.advance s t h).bind fun _ s₁ t₁ hs₁ _ _ h₁ => ?_
    refine (local_identifier s₁ t₁ h₁).bind fun next s₂ t₂ hs₂ _ _ h₂ => ?_
    have hshorter : s₂.rest.length < s.rest.length := by
      cases hs₁
      have hadvanced := State.length_advanced (s := s) (by rw [h.kind, hdot]; nofun)
      have hlater := (Forward.advances_of_ok _ hs₂).length_le
      omega
    refine (ih s₂ t₂ hshorter h₂).bind fun more s₃ t₃ _ _ _ h₃ => ?_
    exact .ok trivial h₃
  · exact .ok trivial h

omit hinner [Inner.Forward inner] in
theorem local_segments : cut.Local segments := by
  refine .get fun s t h => ?_
  rw [h.kind]
  split
  · exact Local.bind local_literal (fun address _ => .pure trivial) s t h
  · refine Local.bind local_identifier (fun first _ => .get fun s t h => ?_) s t h
    simp only [segmentsWithin_eq_map [first], map_eq_pure_bind]
    have hmore : cut.Agrees (segmentsWithin [] s.rest s) (segmentsWithin [] t.rest t) :=
      local_moreSegments s t h
    exact hmore.bind fun more s' t' _ _ _ h' => .ok trivial h'

omit hinner [Inner.Forward inner] in
theorem local_importPath : cut.Local importPath := by
  refine .expect_bind (by simp) fun scheme hscheme => ?_
  refine (Local.expect .colon).later.bind fun _ _ => local_segments.later.bind fun parts _ => ?_
  refine .get fun s t h hlater => ?_
  rw [h.spanFrom hlater]
  have hplace : cut.holds scheme.span.start := hscheme
  split
  · exact .ok hplace h
  · refine Local.bind (.report ?_) (fun _ _ => .pure ?_) s t h
    · exact hplace
    · exact hplace

omit hinner [Inner.Forward inner] in
theorem local_importedNames : cut.Local importedNames := by
  refine .bind (local_bracketed local_identifier _ _ _) fun names hnames => ?_
  obtain ⟨names, span⟩ := names
  exact .ite _ (.throw hnames.2) (.pure trivial)

omit hinner [Inner.Forward inner] in
theorem local_pathImport : cut.Local pathImport := by
  refine .bind local_importPath fun path _ => .get fun s t h => ?_
  rw [h.kind]
  split
  · refine Local.bind .advance (fun _ _ => ?_) s t h
    exact .bind local_identifier fun name _ => .pure trivial
  · exact .ok trivial h

omit hinner [Inner.Forward inner] in
theorem local_nameImport : cut.Local nameImport := by
  refine .bind local_importedNames fun names _ => .bind (.expect _) fun _ _ => ?_
  exact .bind local_importPath fun path _ => .pure trivial

omit hinner [Inner.Forward inner] in
theorem local_afterWord {f : Token → Parser Node} [∀ token, Forward (f token)]
    (hf : ∀ token, located cut.holds token → cut.LocalLater (f token)) {s t : State}
    (h : cut.Alike s t) (hkind : t.kind ≠ .endOfFile) :
    cut.Agrees ((advance >>= f) s) ((advance >>= f) t) := by
  refine (Local.advance s t h).bind fun token s' t' _ ht htoken h' => hf token htoken s' t' h' ?_
  cases ht
  rw [State.consumed_advanced hkind]
  exact Nat.succ_pos _

omit hinner [Inner.Forward inner] in
theorem agrees_importStmt {s t : State} (h : cut.Alike s t) (hkind : t.kind ≠ .endOfFile) :
    cut.Agrees (importStmt s) (importStmt t) := by
  refine local_afterWord (fun opening hopening => .get fun s t h hlater => ?_) h hkind
  have hspan : ∀ parts, cut.LocalLater (do
      let s ← get
      return Node.branch .importStmt (s.spanFrom opening.span.start) parts) := by
    refine fun parts => .get fun s t h hlater => ?_
    rw [h.spanFrom hlater]
    exact .ok hopening h
  rw [h.kind]
  split
  · exact LocalLater.bind local_nameImport.later (fun parts _ => hspan parts) s t h hlater
  · exact LocalLater.bind local_pathImport.later (fun parts _ => hspan parts) s t h hlater

theorem local_forStmt : cut.Local (forStmt inner) := by
  refine .bind .advance fun opening hopening => .bind (hinner.expression .lowest) fun condition _ => ?_
  exact .bind hinner.block fun body _ => .pure hopening

theorem local_clause (isElse : Bool) : cut.Local (clause inner isElse) := by
  refine .bind .advance fun opening hopening => ?_
  split
  · exact .bind hinner.block fun body _ => .pure ⟨hopening, hopening⟩
  · refine .bind (hinner.expression .lowest) fun condition _ => ?_
    exact .bind hinner.block fun body _ => .pure ⟨hopening, hopening⟩

omit hinner [Inner.Forward inner] in
theorem local_checkedClause (seenElse isElse : Bool) {opening : Token} {node : Node}
    (hopening : cut.holds opening.span.start) (hnode : cut.holds node.span.start) :
    cut.Local (checkedClause seenElse isElse opening node) := by
  unfold checkedClause
  split
  · exact .bind (.report hopening) fun _ _ => .pure hnode
  · exact .pure hnode

theorem local_moreClauses (hblocks : cut.blocks = true) (seenElse : Bool) :
    cut.Local (moreClauses inner seenElse) := by
  refine Local.rounds (fun seenElse s t h ih => ?_) seenElse
  rw [moreClauses_eq]
  simp only [run_bind (get : Parser State), run_get, h.clauseKind? hblocks]
  cases hclause : clauseKind? t.kindPastNewlines with
  | none => exact .ok trivial h
  | some isElse =>
      refine (Local.skipNewlines s t h).bind fun _ s₁ t₁ hs₁ _ _ h₁ => ?_
      refine (local_clause hinner isElse s₁ t₁ h₁).bind fun opened s₂ t₂ hs₂ _ hopened h₂ => ?_
      have hshorter : s₂.rest.length < s.rest.length := by
        rw [run_skipNewlines] at hs₁
        cases hs₁
        have hkind : s.pastNewlines.kind ≠ .endOfFile := by
          rw [State.kind_pastNewlines]
          intro hend
          have hsame := h.clauseKind? hblocks
          rw [hend, hclause] at hsame
          cases hsame
        have hclause := length_lt_of_clause inner hkind hs₂
        have hbefore := s.advances_pastNewlines.length_le
        omega
      refine (local_checkedClause seenElse isElse hopened.1 hopened.2 s₂ t₂ h₂).bind
        fun node s₃ t₃ hs₃ _ _ h₃ => ?_
      have hlater := (Forward.advances_of_ok _ hs₃).length_le
      exact (ih _ s₃ t₃ (by omega) h₃).bind fun more s₄ t₄ _ _ _ h₄ => .ok trivial h₄

theorem agrees_ifStmt {s t : State} (h : cut.Alike s t) (hkind : t.kind ≠ .endOfFile) :
    cut.Agrees (ifStmt inner s) (ifStmt inner t) := by
  refine local_afterWord (fun opening hopening => ?_) h hkind
  refine (hinner.expression .lowest).later.bind fun condition _ => fun s₁ t₁ h₁ hlater => ?_
  refine (hinner.block s₁ t₁ h₁).bind fun body s t _ hbody _ h => ?_
  -- where no block can stand before the cut, none is read and no clause is looked for
  have hblocks : cut.blocks = true := by
    cases hblocks : cut.blocks with
    | false => exact absurd (hinner.opens hbody) (h₁.kind_ne_leftBrace hblocks)
    | true => rfl
  have hlater := Nat.lt_of_lt_of_le hlater (Forward.advances_of_ok _ hbody).consumed_le
  have hmore : cut.Agrees (clausesWithin inner false [] s.rest s) (clausesWithin inner false [] t.rest t) :=
    local_moreClauses hinner hblocks false s t h
  simp only [run_bind (get : Parser State), run_get]
  refine hmore.bind fun clauses s' t' _ ht _ h' => ?_
  have hlater' := Nat.lt_of_lt_of_le hlater (Forward.advances_of_ok _ ht).consumed_le
  simp only [run_bind, run_get, run_pure, h'.spanFrom hlater']
  exact .ok hopening h'

theorem local_returnStmt : cut.Local (returnStmt inner) := by
  refine .bind .advance fun opening hopening => .get fun s t h => ?_
  rw [h.atStatementEnd]
  split
  · exact .ok hopening h
  · refine Local.bind (hinner.expression .lowest) (fun value _ => ?_) s t h
    exact .pure hopening

theorem agrees_statementOf {s t : State} {form : StatementForm} (h : cut.Alike s t)
    (hform : t.kind.statementForm? = some form) :
    cut.Agrees (statementOf inner form s) (statementOf inner form t) := by
  have hkind : t.kind ≠ .endOfFile := by
    intro hend
    rw [hend] at hform
    cases hform
  cases form with
  | functionDecl => exact local_functionStmt hinner s t h
  | macroDecl => exact local_macroDecl hinner s t h
  | structDecl => exact local_structDecl hinner s t h
  | importStmt => exact agrees_importStmt h hkind
  | forStmt => exact local_forStmt hinner s t h
  | ifStmt => exact agrees_ifStmt hinner h hkind
  | returnStmt => exact local_returnStmt hinner s t h

theorem local_statementIn : cut.Local (statementIn inner) := by
  intro s t h
  have hlogged := h.logged (.statement t.current.span.start t.current.kind)
    (.statement t.current.span.start t.current.kind)
  simp only [statementIn, run_bind, run_get, run_log, h.current]
  cases hform : t.current.kind.statementForm? with
  | none => exact local_assignmentOrExpression hinner _ _ hlogged
  | some form => exact agrees_statementOf hinner hlogged hform

end

/-! ### Lists of statements -/

theorem agrees_recover {s t s' t' : State} (h : cut.Alike s t) (h' : cut.Alike s' t')
    (hs : s.Advances s') (ht : t.Advances t') (inBlock : Bool) :
    cut.Agrees (recover s.mark inBlock s') (recover t.mark inBlock t') := by
  rw [run_recover, run_recover]
  -- recovery may run over the cut in both runs; then neither is asked about any more
  rcases h.recovered h' hs ht inBlock with hbeyond | hstates
  · exact .okBeyond hbeyond
  · have hs'' := hs.trans (Forward.advances_of_ok _ (run_recover s.mark inBlock s'))
    have ht'' := ht.trans (Forward.advances_of_ok _ (run_recover t.mark inBlock t'))
    rw [h.spanSince hstates hs'' ht'']
    refine .ok ?_ hstates
    show cut.holds _
    rw [State.spanSince_mark ht'']
    split
    · exact h.holds_next
    · exact h.holds_next

theorem local_separated (inBlock : Bool) : cut.Local (separated inBlock) := by
  refine .get fun s t h => ?_
  simp only [h.kind, h.atListEnd inBlock, h.missingSeparator]
  split
  · exact .ok trivial h
  · have hplace : cut.holds t.missingSeparator.span.start := h.holds_next
    refine (Local.report hplace s t h).bind fun _ s₁ t₁ hs₁ ht₁ _ h₁ => ?_
    have hs := Forward.advances_of_ok _ hs₁
    have ht := Forward.advances_of_ok _ ht₁
    refine (agrees_recover h h₁ hs ht inBlock).bind fun node s₂ t₂ _ _ _ h₂ => ?_
    exact .ok trivial h₂

theorem agrees_afterAttempt {s t s' t' : State} (h : cut.Alike s t) (h' : cut.Alike s' t')
    (hs : s.Advances s') (ht : t.Advances t') (inBlock : Bool) {outcome : Except SyntaxError Node}
    (houtcome : located cut.holds outcome) :
    cut.Agrees (afterAttempt s.mark inBlock outcome s') (afterAttempt t.mark inBlock outcome t') := by
  cases outcome with
  | ok node =>
      refine (local_separated inBlock s' t' h').bind fun behind s₁ t₁ _ _ _ h₁ => ?_
      exact .ok trivial h₁
  | error e =>
      have hplace : cut.holds e.span.start := houtcome
      refine (Local.report hplace s' t' h').bind fun _ s₁ t₁ hs₁ ht₁ _ h₁ => ?_
      have hs := hs.trans (Forward.advances_of_ok _ hs₁)
      have ht := ht.trans (Forward.advances_of_ok _ ht₁)
      refine (agrees_recover h h₁ hs ht inBlock).bind fun node s₂ t₂ _ _ _ h₂ => ?_
      exact .ok trivial h₂

section
variable {statement : Parser Node} [Forward statement] (hstatement : cut.Local statement)
include hstatement

theorem local_statementRound (inBlock : Bool) : cut.Local (statementRound statement inBlock) := by
  refine .get fun s t h => ?_
  refine (hstatement.attempt s t h).bind fun outcome s' t' hs ht houtcome h' => ?_
  exact agrees_afterAttempt h h' (Forward.advances_of_ok _ hs) (Forward.advances_of_ok _ ht) inBlock
    houtcome

theorem local_statementList (inBlock : Bool) : cut.Local (statementList statement inBlock) := by
  refine .loop fun s t h ih => ?_
  rw [statementList_eq]
  refine (Local.skipSeparators s t h).bind fun _ s₁ t₁ hs₁ _ _ h₁ => ?_
  simp only [run_bind (get : Parser State), run_get, h₁.atListEnd inBlock]
  split
  · exact .ok trivial h₁
  · rename_i hmore
    refine (local_statementRound hstatement inBlock s₁ t₁ h₁).bind fun nodes s₂ t₂ hs₂ _ _ h₂ => ?_
    have hshorter : s₂.rest.length < s.rest.length := by
      rw [run_skipSeparators] at hs₁
      cases hs₁
      have hround := length_lt_of_statementRound statement inBlock s.isSeparator_pastSeparators
        (by rw [h₁.atListEnd inBlock]; simpa using hmore) hs₂
      have hbefore := s.advances_pastSeparators.length_le
      omega
    exact (ih s₂ t₂ hshorter h₂).bind fun more s₃ t₃ _ _ _ h₃ => .ok trivial h₃

theorem local_blockOf : cut.Local (blockOf statement) := by
  refine .expect_bind (by simp) fun opener hopener => ?_
  refine ((local_statementList hstatement true).delimited .rightBrace false).later.bind fun body _ => ?_
  refine .get fun s t h hlater => ?_
  rw [h.kind]
  split
  · refine Local.bind .advance (fun closing _ => ?_) s t h
    exact .pure hopener
  · refine (Local.report hopener s t h).bind fun _ s' t' _ ht _ h' => ?_
    have hlater' := Nat.lt_of_lt_of_le hlater (Forward.advances_of_ok _ ht).consumed_le
    simp only [run_bind, run_get, run_pure, h'.spanFrom hlater']
    exact .ok hopener h'

end

/-! ### Nesting -/

theorem local_afterPending {power : BindingPower}
    {f : Option (BindingPower × OperatorForm) → Parser Node} (hf : ∀ pending, cut.Local (f pending)) :
    cut.Local (pendingOperator power >>= f) := by
  intro s t h
  have hpending : s.pending power = t.pending power := by
    unfold State.pending
    rw [h.kind]
  rw [run_bind, run_bind, run_pendingOperator, run_pendingOperator, hpending]
  exact hf _ s t h

theorem local_afterEntering {f : Unit → Parser Node} (hf : cut.Local (f ())) :
    cut.Local (enterNesting >>= f) := by
  intro s t h
  rw [run_bind, run_bind]
  by_cases hdeep : nestingLimit ≤ t.depth
  · have hplace : cut.holds t.nestingTooDeep.span.start := h.holds_next
    simp only [run_enterNesting, h.depth, hdeep, if_true, h.nestingTooDeep]
    exact .error hplace h
  · simp only [run_enterNesting, h.depth, hdeep, if_false]
    exact hf _ _ h.entered

theorem kind_of_blockAt {levels : Nat} {s s' : State} {body : Node}
    (hblock : blockAt levels s = .ok body s') : s.kind = .leftBrace := by
  cases (reads_of_levels levels).1.block hblock with
  | block _ hopener => exact hopener
  | openBlock _ hopener => exact hopener

theorem local_levels (levels : Nat) :
    (∀ power, cut.Local (expressionAt levels power)) ∧
      (∀ power left, cut.holds left.span.start → cut.Local (climbAt levels power left)) ∧
      cut.Local (blockAt levels) := by
  induction levels with
  | zero =>
      refine ⟨fun power => ?_, fun power left hleft => ?_, ?_⟩
      · unfold expressionAt
        exact .nestingTooDeep
      · unfold climbAt
        refine local_afterPending fun pending => ?_
        cases pending with
        | none => exact .pure hleft
        | some next => exact .nestingTooDeep
      · unfold blockAt
        exact .nestingTooDeep
  | succ levels ih =>
      obtain ⟨hexpression, hclimb, hblock⟩ := ih
      have hinner : cut.LocalInner ⟨expressionAt levels, blockAt levels⟩ :=
        ⟨hexpression, hblock, kind_of_blockAt⟩
      have hforward := (forward_levels levels).2.1
      refine ⟨fun power => ?_, fun power left hleft => ?_, ?_⟩
      · unfold expressionAt
        refine .nested <| local_afterEntering <| .get fun s t h => ?_
        rw [h.kind]
        cases t.kind.operandForm? with
        | none => exact local_missingExpression s t h
        | some form =>
            refine Local.bind (local_operand hinner form) (fun left hleft => ?_) s t h
            exact hclimb power left hleft
      · unfold climbAt
        refine local_afterPending fun pending => ?_
        cases pending with
        | none => exact .pure hleft
        | some pending =>
            refine local_afterEntering <| .bind (local_continuation hinner hleft _ _) fun folded hfolded => ?_
            exact hclimb power folded hfolded
      · unfold blockAt
        exact .nested <| local_afterEntering <| local_blockOf (local_statementIn hinner)

theorem local_inner (levels : Nat) : cut.LocalInner ⟨expressionAt levels, blockAt levels⟩ :=
  ⟨(local_levels levels).1, (local_levels levels).2.2, kind_of_blockAt⟩

theorem local_statement : cut.Local statement := by
  refine .get fun s t h => ?_
  rw [h.depth]
  exact local_statementIn (local_inner _) s t h

end Cut

end ScriptSyntax
