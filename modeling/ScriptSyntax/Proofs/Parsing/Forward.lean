import ScriptSyntax.Proofs.Parsing.Run

/-!
Steps that only go forward.  Whether it fails or not, no form of the grammar gives a token back, takes a
diagnostic back or changes what surrounds it: `Forward` holds of every form.
-/

namespace ScriptSyntax

/-- Where the last of some tokens ends, for tokens behind the position `p`. -/
def Slot.endAfter (p : Position) (slots : List Slot) : Position :=
  slots.foldl (fun _ slot => slot.token.span.stop) p

theorem Slot.endAfter_append (p : Position) (first second : List Slot) :
    Slot.endAfter p (first ++ second) = Slot.endAfter (Slot.endAfter p first) second :=
  List.foldl_append

namespace State

/-- The state `s'` can follow `s`: some of the tokens are consumed, some diagnostics are added, levels of
nesting may be entered but none is left, and what surrounds the parse is the same. -/
structure Advances (s s' : State) : Prop where
  passes : ∃ passed, s.rest = passed ++ s'.rest ∧
    s'.previousEnd = Slot.endAfter s.previousEnd passed
  consumed : s'.consumed + s'.rest.length = s.consumed + s.rest.length
  reports : s.reports <:+ s'.reports
  depth : s.depth ≤ s'.depth
  delimiters : s'.delimiters = s.delimiters
  endOfFile : s'.endOfFile = s.endOfFile
  commentAtEnd : s'.commentAtEnd = s.commentAtEnd
  start : s'.start = s.start
  options : s'.options = s.options

namespace Advances

theorem refl (s : State) : s.Advances s :=
  ⟨⟨[], rfl, rfl⟩, rfl, List.suffix_refl _, Nat.le_refl _, rfl, rfl, rfl, rfl, rfl⟩

theorem trans {first second third : State} (h : first.Advances second)
    (h' : second.Advances third) : first.Advances third where
  passes := by
    obtain ⟨passed, hrest, hend⟩ := h.passes
    obtain ⟨passed', hrest', hend'⟩ := h'.passes
    refine ⟨passed ++ passed', ?_, ?_⟩
    · rw [hrest, hrest', List.append_assoc]
    · rw [hend', hend, Slot.endAfter_append]
  consumed := h'.consumed.trans h.consumed
  reports := h.reports.trans h'.reports
  depth := Nat.le_trans h.depth h'.depth
  delimiters := h'.delimiters.trans h.delimiters
  endOfFile := h'.endOfFile.trans h.endOfFile
  commentAtEnd := h'.commentAtEnd.trans h.commentAtEnd
  start := h'.start.trans h.start
  options := h'.options.trans h.options

theorem rest {s s' : State} (h : s.Advances s') : s'.rest <:+ s.rest := by
  obtain ⟨passed, hrest, -⟩ := h.passes
  exact ⟨passed, hrest.symm⟩

theorem length_le {s s' : State} (h : s.Advances s') : s'.rest.length ≤ s.rest.length :=
  h.rest.length_le

theorem consumed_le {s s' : State} (h : s.Advances s') : s.consumed ≤ s'.consumed := by
  have hconsumed := h.consumed
  have hlength := h.length_le
  omega

theorem eq_of_length_eq {s s' : State} (h : s.Advances s')
    (hlength : s'.rest.length = s.rest.length) :
    s'.rest = s.rest ∧ s'.consumed = s.consumed ∧ s'.kind = s.kind := by
  have hrest : s'.rest = s.rest := h.rest.eq_of_length hlength
  refine ⟨hrest, ?_, ?_⟩
  · have := h.consumed
    omega
  · simp only [kind, current, slot, hrest, h.endOfFile, h.commentAtEnd]

end Advances

theorem advances_reported (s : State) (d : Diagnostic) : s.Advances (s.reported d) :=
  ⟨⟨[], rfl, rfl⟩, rfl, List.suffix_cons _ _, Nat.le_refl _, rfl, rfl, rfl, rfl, rfl⟩

theorem advances_logged (s : State) (event : Event) : s.Advances (s.logged event) :=
  ⟨⟨[], rfl, rfl⟩, rfl, List.suffix_refl _, Nat.le_refl _, rfl, rfl, rfl, rfl, rfl⟩

theorem advances_entered (s : State) : s.Advances s.entered :=
  ⟨⟨[], rfl, rfl⟩, rfl, List.suffix_refl _, Nat.le_succ _, rfl, rfl, rfl, rfl, rfl⟩

theorem Advances.leaving {s s' : State} (h : s.Advances s') : s.Advances (s'.leaving s.depth) :=
  { h with depth := Nat.le_refl _ }

theorem advances_noted (s : State) (slot : Slot) : s.Advances (s.noted slot) := by
  unfold noted
  split
  · split
    · exact s.advances_reported _
    · exact .refl s
  · exact .refl s

theorem advances_advanced (s : State) : s.Advances s.advanced := by
  unfold advanced
  split
  · exact .refl s
  · rename_i slot rest hrest
    have hnoted := s.advances_noted slot
    exact
      { hnoted with
        passes := ⟨[slot], hrest, rfl⟩
        consumed := by simp [hrest]; omega }

theorem advances_pastWhile (p : TokenKind → Bool) (slots : List Slot) (s : State) :
    s.Advances (pastWhile p slots s) := by
  induction slots generalizing s with
  | nil => exact .refl s
  | cons slot slots ih =>
      unfold pastWhile
      split
      · exact s.advances_advanced.trans (ih s.advanced)
      · exact .refl s

theorem Advances.closed {s s' : State} {closer : TokenKind} {expressionList : Bool}
    (h : (s.opened closer expressionList).Advances s') : s.Advances s'.closed :=
  { h with delimiters := by simp [State.closed, h.delimiters, State.opened] }

theorem kind_current (s : State) : s.current.kind = s.kind := rfl

theorem kind_entered (s : State) : s.entered.kind = s.kind := rfl

theorem slot_of_cons {s : State} {slot : Slot} {slots : List Slot} (hrest : s.rest = slot :: slots) :
    s.slot = slot := by
  simp [State.slot, hrest]

theorem kind_of_cons {s : State} {slot : Slot} {slots : List Slot} (hrest : s.rest = slot :: slots) :
    s.kind = slot.kind := by
  rw [kind, current, slot_of_cons hrest, Slot.kind]

theorem kind_of_nil {s : State} (hrest : s.rest = []) : s.kind = .endOfFile := by
  simp [kind, current, slot, hrest, Token.endOfFile]

theorem rest_advanced {s : State} {slot : Slot} {slots : List Slot} (hrest : s.rest = slot :: slots) :
    s.advanced.rest = slots := by
  simp [advanced, hrest]

theorem exists_rest_eq_cons {s : State} (hkind : s.kind ≠ .endOfFile) :
    ∃ slot slots, s.rest = slot :: slots := by
  cases hrest : s.rest with
  | nil => exact absurd (kind_of_nil hrest) hkind
  | cons slot slots => exact ⟨slot, slots, rfl⟩

theorem kind_ne_of_eq {s : State} {kind : TokenKind} (hkind : s.kind = kind)
    (hend : kind ≠ .endOfFile) : s.kind ≠ .endOfFile :=
  hkind ▸ hend

theorem consumed_advanced {s : State} (hkind : s.kind ≠ .endOfFile) :
    s.advanced.consumed = s.consumed + 1 := by
  obtain ⟨slot, slots, hrest⟩ := exists_rest_eq_cons hkind
  simp [advanced, hrest]

theorem length_advanced {s : State} (hkind : s.kind ≠ .endOfFile) :
    s.advanced.rest.length < s.rest.length := by
  obtain ⟨slot, slots, hrest⟩ := exists_rest_eq_cons hkind
  simp [rest_advanced hrest, hrest]

end State

namespace Parser

variable {α β : Type}

/-- A relation between states that leads along every step which enters no level of nesting.  What a step reports
by itself is an error; a warning is given with the token that a comment stands before. -/
class Steps (R : State → State → Prop) : Prop where
  refl : ∀ s, R s s
  trans : ∀ {first second third}, R first second → R second third → R first third
  advanced : ∀ s : State, R s s.advanced
  reported : ∀ (s : State) (d : Diagnostic), d.isError = true → R s (s.reported d)
  logged : ∀ (s : State) (event : Event), R s (s.logged event)
  closed : ∀ {s s' : State} {closer : TokenKind} {expressionList : Bool},
    R (s.opened closer expressionList) s' → R s s'.closed
  leaving : ∀ {s s' : State}, R s s' → R s (s'.leaving s.depth)

instance : Steps State.Advances where
  refl := .refl
  trans := .trans
  advanced := State.advances_advanced
  reported s d _ := s.advances_reported d
  logged := State.advances_logged
  closed := .closed
  leaving := .leaving

variable {R : State → State → Prop}

theorem Steps.pastWhile [Steps R] (p : TokenKind → Bool) (slots : List Slot) (s : State) :
    R s (State.pastWhile p slots s) := by
  induction slots generalizing s with
  | nil => exact Steps.refl s
  | cons slot slots ih =>
      unfold State.pastWhile
      split
      · exact Steps.trans (Steps.advanced s) (ih s.advanced)
      · exact Steps.refl s

/-- A step that leaves a state which the one it began in leads to, whether it fails or not. -/
class Keeps (R : State → State → Prop) (p : Parser α) : Prop where
  leads : ∀ s : State, R s (finalState p s)

abbrev Forward (p : Parser α) : Prop := Keeps State.Advances p

theorem Keeps.of_ok (p : Parser α) [hp : Keeps R p] {s s' : State} {value : α}
    (hrun : p s = .ok value s') : R s s' := by
  simpa [finalState, hrun] using hp.leads s

theorem Keeps.of_error (p : Parser α) [hp : Keeps R p] {s s' : State} {e : SyntaxError}
    (hrun : p s = .error e s') : R s s' := by
  simpa [finalState, hrun] using hp.leads s

theorem Forward.advances_of_ok (p : Parser α) [Forward p] {s s' : State} {value : α}
    (hrun : p s = .ok value s') : s.Advances s' :=
  Keeps.of_ok p hrun

theorem Forward.advances_of_error (p : Parser α) [Forward p] {s s' : State} {e : SyntaxError}
    (hrun : p s = .error e s') : s.Advances s' :=
  Keeps.of_error p hrun

section
variable [Steps R]

instance keeps_pure (value : α) : Keeps R (pure value) := ⟨Steps.refl⟩

instance keeps_get : Keeps R (get : Parser State) := ⟨Steps.refl⟩

instance keeps_throw (e : SyntaxError) : Keeps R (throw e : Parser α) := ⟨Steps.refl⟩

instance keeps_failWith (error : State → SyntaxError) : Keeps R (failWith error : Parser α) :=
  ⟨Steps.refl⟩

instance keeps_advance : Keeps R advance := ⟨Steps.advanced⟩

instance keeps_log (event : Event) : Keeps R (log event) := ⟨(Steps.logged · event)⟩

theorem keeps_reportDiagnostic {d : Diagnostic} (hd : d.isError = true) : Keeps R (reportDiagnostic d) :=
  ⟨(Steps.reported · d hd)⟩

instance keeps_report (e : SyntaxError) : Keeps R (report e) := keeps_reportDiagnostic rfl

instance keeps_bind (p : Parser α) (f : α → Parser β) [Keeps R p] [hf : ∀ value, Keeps R (f value)] :
    Keeps R (p >>= f) where
  leads s := by
    unfold finalState
    rw [run_bind]
    cases hfirst : p s with
    | ok value middle => exact Steps.trans (Keeps.of_ok p hfirst) ((hf value).leads middle)
    | error e middle => exact Keeps.of_error p hfirst

theorem Keeps.bind {p : Parser α} {f : α → Parser β} [Keeps R p] (hf : ∀ value, Keeps R (f value)) :
    Keeps R (p >>= f) :=
  keeps_bind p f

instance keeps_ite (c : Prop) [Decidable c] (p q : Parser α) [Keeps R p] [Keeps R q] :
    Keeps R (if c then p else q) := by
  split <;> infer_instance

instance keeps_expectOr (kind : TokenKind) (error : State → SyntaxError) :
    Keeps R (expectOr kind error) := by
  unfold expectOr
  infer_instance

instance keeps_expect (kind : TokenKind) : Keeps R (expect kind) := by
  unfold expect
  infer_instance

instance keeps_skipWhile (p : TokenKind → Bool) (slots : List Slot) :
    Keeps R (skipWhile p slots) where
  leads s := by
    simpa [finalState, run_skipWhile] using Steps.pastWhile p slots s

instance keeps_skipNewlines : Keeps R skipNewlines := by
  unfold skipNewlines
  infer_instance

instance keeps_skipSeparators : Keeps R skipSeparators := by
  unfold skipSeparators
  infer_instance

instance keeps_attempt (p : Parser α) [hp : Keeps R p] : Keeps R (attempt p) where
  leads s := by
    have h := hp.leads s
    unfold finalState at h ⊢
    rw [run_attempt]
    cases hrun : p s <;> simpa [hrun] using h

instance keeps_delimited (closer : TokenKind) (expressionList : Bool) (p : Parser α)
    [hp : Keeps R p] : Keeps R (delimited closer expressionList p) where
  leads s := by
    have h := hp.leads (s.opened closer expressionList)
    unfold finalState at h ⊢
    rw [run_delimited]
    cases hrun : p (s.opened closer expressionList) with
    | ok value s' => exact Steps.closed (by simpa [hrun] using h)
    | error e s' => exact Steps.closed (by simpa [hrun] using h)

instance keeps_nested (p : Parser α) [hp : Keeps R p] : Keeps R (nested p) where
  leads s := by
    have h := hp.leads s
    unfold finalState at h ⊢
    rw [run_nested]
    cases hrun : p s with
    | ok value s' => exact Steps.leaving (by simpa [hrun] using h)
    | error e s' => exact Steps.leaving (by simpa [hrun] using h)

/-! ### Lists of items and of statements -/

instance keeps_itemsWithin (item : Parser Node) [Keeps R item] (items : List Node)
    (budget : List Slot) : Keeps R (itemsWithin item items budget) := by
  induction budget generalizing items with
  | nil =>
      unfold itemsWithin
      infer_instance
  | cons slot budget ih =>
      unfold itemsWithin
      infer_instance

instance keeps_items (item : Parser Node) [Keeps R item] : Keeps R (items item) := by
  unfold items
  infer_instance

instance keeps_itemsBefore (closer : TokenKind) (item : Parser Node) [Keeps R item] :
    Keeps R (itemsBefore closer item) := by
  unfold itemsBefore
  infer_instance

instance keeps_bracketed (opener closer : TokenKind) (expressionList : Bool) (item : Parser Node)
    [Keeps R item] : Keeps R (bracketed opener closer expressionList item) := by
  rw [bracketed_eq]
  infer_instance

instance keeps_skipToRecoveryPoint (inBlock : Bool) (owed : List TokenKind) (slots : List Slot) :
    Keeps R (skipToRecoveryPoint inBlock owed slots) := by
  induction slots generalizing owed with
  | nil =>
      unfold skipToRecoveryPoint
      infer_instance
  | cons slot slots ih =>
      unfold skipToRecoveryPoint
      infer_instance

instance keeps_recover (mark : Mark) (inBlock : Bool) : Keeps R (recover mark inBlock) := by
  unfold recover
  infer_instance

instance keeps_requireSeparator (inBlock : Bool) : Keeps R (requireSeparator inBlock) := by
  unfold requireSeparator
  infer_instance

instance keeps_statementOrError (statement : Parser Node) [Keeps R statement] (inBlock : Bool) :
    Keeps R (statementOrError statement inBlock) := by
  unfold statementOrError
  have houtcome : ∀ (mark : Mark) (outcome : Except SyntaxError Node), Keeps R (do
      match outcome with
      | .ok node => return node :: (← requireSeparator inBlock).toList
      | .error e => do
          report e
          return [← recover mark inBlock]) := by
    intro mark outcome
    cases outcome <;> infer_instance
  infer_instance

instance keeps_statementsWithin (statement : Parser Node) [Keeps R statement] (inBlock : Bool)
    (body : List Node) (budget : List Slot) :
    Keeps R (statementsWithin statement inBlock body budget) := by
  induction budget generalizing body with
  | nil =>
      unfold statementsWithin
      infer_instance
  | cons slot budget ih =>
      unfold statementsWithin
      infer_instance

instance keeps_statementList (statement : Parser Node) [Keeps R statement] (inBlock : Bool) :
    Keeps R (statementList statement inBlock) := by
  unfold statementList
  infer_instance

/-! ### Forms -/

/-- Readers of what stands inside a form that lead along the relation. -/
class Inner.Keeps (R : State → State → Prop) (inner : Inner) : Prop where
  expression : ∀ power, Parser.Keeps R (inner.expression power)
  block : Parser.Keeps R inner.block

instance keeps_innerExpression (inner : Inner) [h : Inner.Keeps R inner] (power : BindingPower) :
    Keeps R (inner.expression power) :=
  h.expression power

instance keeps_innerBlock (inner : Inner) [h : Inner.Keeps R inner] : Keeps R inner.block :=
  h.block

instance keeps_missingExpression : Keeps R missingExpression := by
  unfold missingExpression
  have hgap : ∀ s : State, Keeps R (reportDiagnostic
      (if s.slot.commentBefore.isSome then
        (Diagnostic.ofError s.missingExpression).withNote "comments are not expressions"
      else Diagnostic.ofError s.missingExpression)) := by
    intro s
    refine keeps_reportDiagnostic ?_
    split <;> rfl
  infer_instance

instance keeps_literal : Keeps R literal := by
  unfold literal
  have hkind : ∀ s : State, Keeps R (do
      match literalKind? s.kind with
      | some kind => do
          let token ← advance
          return Node.leaf kind token.span token.text
      | none => failWith (·.unexpected "a literal")) := by
    intro s
    cases literalKind? s.kind <;> infer_instance
  infer_instance

instance keeps_identifier : Keeps R identifier := by
  unfold identifier
  infer_instance

instance keeps_parameterList : Keeps R parameterList := by
  unfold parameterList
  infer_instance

section
variable (inner : Inner) [Inner.Keeps R inner]

instance keeps_arguments : Keeps R (arguments inner) := by
  unfold arguments
  infer_instance

instance keeps_nameOrCall : Keeps R (nameOrCall inner) := by
  unfold nameOrCall
  infer_instance

instance keeps_macroCall : Keeps R (macroCall inner) := by
  unfold macroCall
  infer_instance

instance keeps_array : Keeps R (array inner) := by
  unfold array
  infer_instance

instance keeps_keyValuePair : Keeps R (keyValuePair inner) := by
  unfold keyValuePair
  infer_instance

instance keeps_object : Keeps R (object inner) := by
  unfold object
  infer_instance

instance keeps_lambda : Keeps R (lambda inner) := by
  unfold lambda
  infer_instance

instance keeps_awaitExpr : Keeps R (awaitExpr inner) := by
  unfold awaitExpr
  infer_instance

instance keeps_bang : Keeps R (bang inner) := by
  unfold bang
  infer_instance

theorem keeps_afterErrorToken (token : Token) : Keeps R (do
    match token.kind with
    | .error e => report ⟨Cause.ofLexical e token.text, token.span⟩
    | _ => pure ()
    return Node.error token.span []) := by
  cases token.kind <;> infer_instance

instance keeps_lexicalError : Keeps R lexicalError := by
  unfold lexicalError
  have hafter := keeps_afterErrorToken (R := R)
  infer_instance

instance keeps_operand (form : OperandForm) : Keeps R (operand inner form) := by
  cases form <;> unfold operand <;> infer_instance

instance keeps_rightOperand (power : BindingPower) : Keeps R (rightOperand inner power) := by
  unfold rightOperand
  infer_instance

instance keeps_subscript (left : Node) : Keeps R (subscript inner left) := by
  unfold subscript
  infer_instance

instance keeps_continuation (power : BindingPower) (left : Node) (form : OperatorForm) :
    Keeps R (continuation inner power left form) := by
  cases form with
  | binary =>
      unfold continuation binary
      infer_instance
  | membership =>
      unfold continuation membership
      infer_instance
  | range =>
      unfold continuation range
      infer_instance
  | member =>
      unfold continuation member
      infer_instance
  | subscript =>
      unfold continuation
      infer_instance

instance keeps_checkedTarget (kind : NodeKind) (target : Node) :
    Keeps R (checkedTarget kind target) := by
  unfold checkedTarget
  infer_instance

theorem keeps_afterTarget (target : Node) (s : State) : Keeps R (do
    match assignmentKind? s.kind with
    | none => return Node.branch .expressionStmt target.span [target]
    | some kind =>
        let operator ← advance
        let value ← inner.expression .assignment
        let target ← checkedTarget kind target
        let literal := if kind = .compoundAssign then some operator.text else none
        return ⟨kind, [target, value], target.span.through value.span, literal⟩) := by
  cases assignmentKind? s.kind <;> infer_instance

instance keeps_assignmentOrExpression : Keeps R (assignmentOrExpression inner) := by
  unfold assignmentOrExpression
  have hafter := keeps_afterTarget (R := R) inner
  infer_instance

instance keeps_asyncWord : Keeps R asyncWord := by
  unfold asyncWord
  infer_instance

instance keeps_laterAsyncWord (before : Bool) : Keeps R (laterAsyncWord before) := by
  unfold laterAsyncWord
  infer_instance

instance keeps_functionDecl : Keeps R (functionDecl inner) := by
  rw [functionDecl_eq]
  infer_instance

instance keeps_functionStmt : Keeps R (functionStmt inner) := by
  unfold functionStmt
  infer_instance

instance keeps_macroDecl : Keeps R (macroDecl inner) := by
  unfold macroDecl
  infer_instance

instance keeps_structField : Keeps R (structField inner) := by
  unfold structField
  infer_instance

instance keeps_checkedField (seenMethod : Bool) (field : Node) :
    Keeps R (checkedField seenMethod field) := by
  unfold checkedField
  infer_instance

instance keeps_structMember (seenMethod : Bool) : Keeps R (structMember inner seenMethod) := by
  unfold structMember
  have hkind : ∀ s : State, Keeps R (do
      match s.kind with
      | .keyword .fnKw | .keyword .asyncKw => return (← functionDecl inner, true)
      | .identifier => return (← checkedField seenMethod (← structField inner), false)
      | _ => failWith (·.unexpected "a struct field or method")) := by
    intro s
    split <;> infer_instance
  infer_instance

instance keeps_structMembersWithin (opener : Span) (seenMethod : Bool) (members : List Node)
    (budget : List Slot) :
    Keeps R (structMembersWithin inner opener seenMethod members budget) := by
  induction budget generalizing seenMethod members with
  | nil =>
      unfold structMembersWithin
      infer_instance
  | cons slot budget ih =>
      unfold structMembersWithin
      have hkind : ∀ s : State, Keeps R (do
          match s.kind with
          | .rightBrace => return members.reverse
          | .endOfFile => throw ⟨.unterminatedBlock opener.start.line, opener⟩
          | _ =>
              let (node, isMethod) ← structMember inner seenMethod
              if (← get).atStatementEnd then
                structMembersWithin inner opener (seenMethod || isMethod) (node :: members) budget
              else
                failWith (·.missingSeparator)) := by
        intro s
        split <;> infer_instance
      infer_instance

instance keeps_structDecl : Keeps R (structDecl inner) := by
  unfold structDecl
  infer_instance

instance keeps_segmentsWithin (segments : List Node) (budget : List Slot) :
    Keeps R (segmentsWithin segments budget) := by
  induction budget generalizing segments with
  | nil =>
      unfold segmentsWithin
      infer_instance
  | cons slot budget ih =>
      unfold segmentsWithin
      infer_instance

instance keeps_segments : Keeps R segments := by
  unfold segments
  infer_instance

instance keeps_importPath : Keeps R importPath := by
  unfold importPath
  infer_instance

instance keeps_importedNames : Keeps R importedNames := by
  unfold importedNames
  infer_instance

instance keeps_pathImport : Keeps R pathImport := by
  unfold pathImport
  infer_instance

instance keeps_nameImport : Keeps R nameImport := by
  unfold nameImport
  infer_instance

instance keeps_importStmt : Keeps R importStmt := by
  unfold importStmt
  infer_instance

instance keeps_forStmt : Keeps R (forStmt inner) := by
  unfold forStmt
  infer_instance

instance keeps_clause (isElse : Bool) : Keeps R (clause inner isElse) := by
  unfold clause
  infer_instance

instance keeps_checkedClause (seenElse isElse : Bool) (opening : Token) (node : Node) :
    Keeps R (checkedClause seenElse isElse opening node) := by
  unfold checkedClause
  infer_instance

instance keeps_clausesWithin (seenElse : Bool) (clauses : List Node) (budget : List Slot) :
    Keeps R (clausesWithin inner seenElse clauses budget) := by
  induction budget generalizing seenElse clauses with
  | nil =>
      unfold clausesWithin
      infer_instance
  | cons slot budget ih =>
      unfold clausesWithin
      have hkind : ∀ s : State, Keeps R (do
          match clauseKind? s.kindPastNewlines with
          | none => return clauses.reverse
          | some isElse =>
              skipNewlines
              let (opening, node) ← clause inner isElse
              let node ← checkedClause seenElse isElse opening node
              clausesWithin inner (seenElse || isElse) (node :: clauses) budget) := by
        intro s
        cases clauseKind? s.kindPastNewlines <;> infer_instance
      infer_instance

instance keeps_ifStmt : Keeps R (ifStmt inner) := by
  unfold ifStmt
  infer_instance

instance keeps_returnStmt : Keeps R (returnStmt inner) := by
  unfold returnStmt
  infer_instance

instance keeps_statementOf (form : StatementForm) : Keeps R (statementOf inner form) := by
  cases form <;> unfold statementOf <;> infer_instance

instance keeps_statementIn : Keeps R (statementIn inner) := by
  unfold statementIn
  have hform : ∀ token : Token, Keeps R (do
      match token.kind.statementForm? with
      | some form => statementOf inner form
      | none => assignmentOrExpression inner) := by
    intro token
    cases token.kind.statementForm? <;> infer_instance
  infer_instance

end

/-! ### Nesting -/

instance keeps_pendingOperator (power : BindingPower) : Keeps R (pendingOperator power) := by
  unfold pendingOperator
  have hform : ∀ s : State, Keeps R (do
      match s.kind.operatorForm? with
      | some (next, form) => return if power < next then some (next, form) else none
      | none => return none) := by
    intro s
    cases s.kind.operatorForm? <;> infer_instance
  infer_instance

instance keeps_blockOf (statement : Parser Node) [Keeps R statement] :
    Keeps R (blockOf statement) := by
  unfold blockOf
  infer_instance

/-- The readers of expressions and blocks lead along a relation that the entering of a level leads along,
whatever the number of levels left. -/
theorem keeps_levels [Keeps R enterNesting] (levels : Nat) :
    (∀ power, Keeps R (expressionAt levels power)) ∧
      (∀ power left, Keeps R (climbAt levels power left)) ∧ Keeps R (blockAt levels) := by
  induction levels with
  | zero =>
      refine ⟨fun power => ?_, fun power left => ?_, ?_⟩
      · unfold expressionAt
        infer_instance
      · unfold climbAt
        refine Keeps.bind fun pending => ?_
        cases pending <;> infer_instance
      · unfold blockAt
        infer_instance
  | succ levels ih =>
      obtain ⟨hexpression, hclimb, hblock⟩ := ih
      have hinner : Inner.Keeps R ⟨expressionAt levels, blockAt levels⟩ := ⟨hexpression, hblock⟩
      refine ⟨fun power => ?_, fun power left => ?_, ?_⟩
      · unfold expressionAt
        refine @keeps_nested _ _ _ _ (Keeps.bind fun _ => Keeps.bind fun s => ?_)
        cases s.kind.operandForm? <;> infer_instance
      · unfold climbAt
        refine Keeps.bind fun pending => ?_
        cases pending <;> infer_instance
      · unfold blockAt
        infer_instance

instance keeps_inner [Keeps R enterNesting] (levels : Nat) :
    Inner.Keeps R ⟨expressionAt levels, blockAt levels⟩ :=
  ⟨(keeps_levels levels).1, (keeps_levels levels).2.2⟩

section
variable [∀ levels, Inner.Keeps R ⟨expressionAt levels, blockAt levels⟩]

theorem keeps_here {α : Type} {form : Inner → Parser α}
    (hform : ∀ (inner : Inner) [Inner.Keeps R inner], Keeps R (form inner)) : Keeps R (here form) := by
  unfold here
  infer_instance

instance keeps_statement : Keeps R statement :=
  keeps_here fun inner _ => keeps_statementIn inner

instance keeps_sourceFile : Keeps R sourceFile := by
  unfold sourceFile
  infer_instance

end

end

abbrev Inner.Forward (inner : Inner) : Prop := Inner.Keeps State.Advances inner

instance forward_enterNesting : Forward enterNesting where
  leads s := by
    unfold finalState
    rw [run_enterNesting]
    by_cases hdeep : nestingLimit ≤ s.depth
    · rw [if_pos hdeep]
      exact .refl s
    · rw [if_neg hdeep]
      exact s.advances_entered

theorem forward_levels (levels : Nat) :
    (∀ power, Forward (expressionAt levels power)) ∧
      (∀ power left, Forward (climbAt levels power left)) ∧ Forward (blockAt levels) :=
  keeps_levels levels

end Parser

end ScriptSyntax
