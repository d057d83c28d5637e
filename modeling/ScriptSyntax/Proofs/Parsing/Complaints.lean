import Mathlib.Data.List.Perm.Subperm
import ScriptSyntax.Proofs.Parsing.Trivia

/-!
Complaints about single tokens.  A lexical error is reported on whichever path its token is met, and what is not
closed at the end of the file is reported at the brace that opens it.  On every path a report is paid for with a
token that is passed: the complaints made and those that the tokens left can still cause are counted together, and
no step makes the count larger, `Pays`.
-/

namespace ScriptSyntax

/-- The diagnostic that a token can cause on any path: a lexical error speaks for itself, and an opening brace may
be that of a block which is not closed. -/
def Token.complaint? (t : Token) : Option Diagnostic :=
  match t.kind with
  | .error e => some (.ofError ⟨Cause.ofLexical e t.text, t.span⟩)
  | .leftBrace => some (.ofError ⟨.unterminatedBlock t.span.start.line, t.span⟩)
  | _ => none

def Diagnostic.isComplaint (d : Diagnostic) : Bool :=
  d.category = .lexical || d.name = "UnterminatedBlock"

def Slot.complaints (slots : List Slot) : List Diagnostic := slots.filterMap (·.token.complaint?)

/-- How often a diagnostic is reported or can still be. -/
def State.chances (d : Diagnostic) (s : State) : Nat :=
  s.reports.count d + (Slot.complaints s.rest).count d

/-- No complaint is reported on the way without a token that is passed for it. -/
def State.Pays (s s' : State) : Prop :=
  ∀ d : Diagnostic, d.isComplaint = true → s'.chances d ≤ s.chances d

namespace State.Pays

variable {s s' : State}

theorem refl (s : State) : s.Pays s := fun _ _ => Nat.le_refl _

theorem trans {first second third : State} (h : first.Pays second) (h' : second.Pays third) :
    first.Pays third :=
  fun d hd => Nat.le_trans (h' d hd) (h d hd)

theorem reported {d : Diagnostic} (hd : d.isComplaint = false) (s : State) : s.Pays (s.reported d) := by
  intro x hx
  have hne : d ≠ x := fun h => by simp [← h, hd] at hx
  rw [chances, State.reported, List.count_cons_of_ne hne]
  exact Nat.le_refl _

end State.Pays

namespace State

theorem complaint?_endOfFile (p : Position) : (Token.endOfFile p).complaint? = none := rfl

theorem chances_advanced {d : Diagnostic} (hd : d.isComplaint = true) (s : State) :
    s.advanced.chances d + s.current.complaint?.toList.count d = s.chances d := by
  cases hrest : s.rest with
  | nil =>
      simp [advanced, current, slot, hrest, complaint?_endOfFile]
  | cons slot slots =>
      have hnoted : (s.noted slot).reports.count d = s.reports.count d := by
        unfold noted
        split
        · split
          · refine List.count_cons_of_ne ?_
            rintro rfl
            cases hd
          · rfl
        · rfl
      have hcurrent : s.current = slot.token := by rw [current, slot_of_cons hrest]
      rw [chances, chances, rest_advanced hrest, hrest, hcurrent, Slot.complaints, Slot.complaints,
        List.filterMap_cons]
      have hreports : s.advanced.reports = (s.noted slot).reports := by simp [advanced, hrest]
      rw [hreports, hnoted]
      cases slot.token.complaint? with
      | none => simp
      | some x =>
          simp only [Option.toList_some, List.count_cons, List.count_nil]
          omega

theorem pays_advanced (s : State) : s.Pays s.advanced := by
  intro d hd
  have hchances := chances_advanced hd s
  omega

theorem chances_reported (d x : Diagnostic) (s : State) :
    (s.reported d).chances x = s.chances x + [d].count x := by
  simp only [chances, State.reported, List.count_cons, List.count_nil]
  omega

theorem Pays.complained {s s' : State} {d : Diagnostic} (h : s.advanced.Pays s')
    (hcomplaint : s.current.complaint? = some d) : s.Pays (s'.reported d) := by
  intro x hx
  have hlater := h x hx
  have hchances := chances_advanced hx s
  rw [hcomplaint, Option.toList_some] at hchances
  rw [chances_reported]
  omega

theorem pays_pastWhile (p : TokenKind → Bool) (slots : List Slot) (s : State) : s.Pays (pastWhile p slots s) := by
  induction slots generalizing s with
  | nil => exact .refl s
  | cons slot slots ih =>
      unfold pastWhile
      split
      · exact s.pays_advanced.trans (ih s.advanced)
      · exact .refl s

theorem pays_pastBroken (inBlock : Bool) (owed : List TokenKind) (slots : List Slot) (s : State) :
    s.Pays (pastBroken inBlock owed slots s) := by
  induction slots generalizing owed s with
  | nil => exact .refl s
  | cons slot slots ih =>
      unfold pastBroken
      split
      · exact .refl s
      · exact s.pays_advanced.trans (ih _ s.advanced)

theorem complaint?_of_isRecoveryPoint {inBlock : Bool} {owed : List TokenKind} {t : Token}
    (hpoint : Parser.isRecoveryPoint inBlock owed t.kind = true) : t.complaint? = none := by
  have hkind : t.kind.isSeparator = true ∨ t.kind = .rightBrace := by
    simp only [Parser.isRecoveryPoint, Bool.and_eq_true, Bool.or_eq_true, decide_eq_true_eq] at hpoint
    exact hpoint.2.imp_right And.right
  unfold Token.complaint?
  split
  · rename_i hkind'
    simp [hkind', TokenKind.isSeparator] at hkind
  · rename_i hkind'
    simp [hkind', TokenKind.isSeparator] at hkind
  · rfl

theorem pays_recovered (s : State) (mark : Mark) (inBlock : Bool) :
    s.advanced.Pays (s.recovered mark inBlock) := by
  suffices hbroken : ∀ owed, s.advanced.Pays (pastBroken inBlock owed s.rest s) from hbroken _
  intro owed
  cases hrest : s.rest with
  | nil =>
      simp only [advanced, hrest]
      exact .refl s
  | cons slot slots =>
      unfold pastBroken
      split
      · rename_i hpoint
        intro d hd
        have hchances := chances_advanced hd s
        have hcurrent : s.current = slot.token := by rw [current, slot_of_cons hrest]
        rw [hcurrent, complaint?_of_isRecoveryPoint hpoint] at hchances
        exact Nat.le_of_eq hchances.symm
      · exact pays_pastBroken _ _ _ _

/-- Reports are paid for but for one that the next token pays for. -/
def Owes (s s' : State) : Prop :=
  ∀ d : Diagnostic, d.isComplaint = true → s'.chances d ≤ s.chances d + s'.current.complaint?.toList.count d

theorem Pays.owes {s s' : State} (h : s.Pays s') : s.Owes s' :=
  fun d hd => Nat.le_trans (h d hd) (Nat.le_add_right _ _)

theorem Pays.trans_owes {first second third : State} (h : first.Pays second) (h' : second.Owes third) :
    first.Owes third :=
  fun d hd => Nat.le_trans (h' d hd) (Nat.add_le_add_right (h d hd) _)

theorem owes_complained {s : State} {d : Diagnostic} (hcomplaint : s.current.complaint? = some d) :
    s.Owes (s.reported d) := by
  intro x _
  have hcurrent : (s.reported d).current = s.current := rfl
  rw [hcurrent, hcomplaint, chances_reported, Option.toList_some]

theorem complaint?_of_error {s : State} {e : LexicalError} (hkind : s.kind = .error e) :
    s.current.complaint? = some (.ofError ⟨Cause.ofLexical e s.current.text, s.current.span⟩) := by
  rw [kind] at hkind
  simp only [Token.complaint?, hkind]

theorem complaint?_of_leftBrace {s : State} (hkind : s.kind = .leftBrace) :
    s.current.complaint? =
      some (.ofError ⟨.unterminatedBlock s.current.span.start.line, s.current.span⟩) := by
  rw [kind] at hkind
  simp only [Token.complaint?, hkind]

theorem owes_unexpected (s : State) (expected : String) :
    s.Owes (s.reported (.ofError (s.unexpected expected))) := by
  unfold unexpected
  split
  · rename_i e hkind
    exact owes_complained (complaint?_of_error hkind)
  · exact (Pays.reported rfl s).owes

theorem owes_missingSeparator (s : State) : s.Owes (s.reported (.ofError s.missingSeparator)) := by
  unfold missingSeparator
  split
  · rename_i e hkind
    exact owes_complained (complaint?_of_error hkind)
  · exact (Pays.reported rfl s).owes

theorem Owes.recovered {s s' : State} (h : s.Owes s') (mark : Mark) (inBlock : Bool) :
    s.Pays (s'.recovered mark inBlock) := by
  intro d hd
  have howed := h d hd
  have hpassed := chances_advanced hd s'
  have hrecovered := s'.pays_recovered mark inBlock d hd
  omega

end State

namespace Parser

variable {α β : Type}

/-- What a step that begins in `s` gives: a failure is yet to be reported. -/
def Paid (s : State) : EStateM.Result SyntaxError State α → Prop
  | .ok _ s' => s.Pays s'
  | .error e s' => s.Owes (s'.reported (.ofError e))

/-- A step that pays for what it reports. -/
class Pays (p : Parser α) : Prop where
  paid : ∀ s, Paid s (p s)

theorem Paid.trans {s s' : State} {r : EStateM.Result SyntaxError State α} (h : s.Pays s') (hr : Paid s' r) :
    Paid s r := by
  cases r with
  | ok value s'' => exact h.trans hr
  | error e s'' => exact h.trans_owes hr

theorem Pays.of_ok (p : Parser α) [hp : Pays p] {s s' : State} {value : α} (hrun : p s = .ok value s') :
    s.Pays s' := by
  simpa [Paid, hrun] using hp.paid s

theorem Pays.of_error (p : Parser α) [hp : Pays p] {s s' : State} {e : SyntaxError}
    (hrun : p s = .error e s') : s.Owes (s'.reported (.ofError e)) := by
  simpa [Paid, hrun] using hp.paid s

/-! ### Steps -/

instance pays_pure (value : α) : Pays (pure value : Parser α) := ⟨.refl⟩

instance pays_get : Pays (get : Parser State) := ⟨.refl⟩

instance pays_advance : Pays advance := ⟨State.pays_advanced⟩

instance pays_log (event : Event) : Pays (log event) := ⟨fun s => .refl s⟩

theorem pays_reportDiagnostic {d : Diagnostic} (hd : d.isComplaint = false) : Pays (reportDiagnostic d) :=
  ⟨.reported hd⟩

theorem pays_report {e : SyntaxError} (he : (Diagnostic.ofError e).isComplaint = false) : Pays (report e) :=
  pays_reportDiagnostic he

theorem pays_throw {e : SyntaxError} (he : (Diagnostic.ofError e).isComplaint = false) :
    Pays (throw e : Parser α) :=
  ⟨fun s => (State.Pays.reported he s).owes⟩

instance pays_unexpected (expected : String) : Pays (failWith (·.unexpected expected) : Parser α) :=
  ⟨(State.owes_unexpected · expected)⟩

instance pays_missingSeparator : Pays (failWith (·.missingSeparator) : Parser α) := ⟨State.owes_missingSeparator⟩

instance pays_nestingTooDeep : Pays (failWith (·.nestingTooDeep) : Parser α) :=
  ⟨fun s => (State.Pays.reported rfl s).owes⟩

instance pays_failMissingExpression : Pays (failWith (·.missingExpression) : Parser α) :=
  ⟨fun s => (State.Pays.reported rfl s).owes⟩

theorem Pays.bind {p : Parser α} {f : α → Parser β} [Pays p] (hf : ∀ value, Pays (f value)) :
    Pays (p >>= f) where
  paid s := by
    rw [run_bind]
    cases hrun : p s with
    | ok value s' => exact ((hf value).paid s').trans (Pays.of_ok p hrun)
    | error e s' => exact Pays.of_error p hrun

instance pays_bind (p : Parser α) (f : α → Parser β) [Pays p] [hf : ∀ value, Pays (f value)] : Pays (p >>= f) :=
  .bind hf

instance pays_ite (c : Prop) [Decidable c] (p q : Parser α) [Pays p] [Pays q] : Pays (if c then p else q) := by
  split <;> infer_instance

instance pays_expect (kind : TokenKind) : Pays (expect kind) := by
  unfold expect expectOr
  infer_instance

instance pays_skipWhile (p : TokenKind → Bool) (slots : List Slot) : Pays (skipWhile p slots) where
  paid s := by
    rw [run_skipWhile]
    exact State.pays_pastWhile p slots s

instance pays_skipNewlines : Pays skipNewlines := by
  unfold skipNewlines
  infer_instance

instance pays_skipSeparators : Pays skipSeparators := by
  unfold skipSeparators
  infer_instance

instance pays_delimited (closer : TokenKind) (expressionList : Bool) (p : Parser α) [Pays p] :
    Pays (delimited closer expressionList p) where
  paid s := by
    rw [run_delimited]
    cases hrun : p (s.opened closer expressionList) with
    | ok value s' =>
        have hpays : (s.opened closer expressionList).Pays s' := Pays.of_ok p hrun
        exact hpays
    | error e s' =>
        have howes : (s.opened closer expressionList).Owes (s'.reported (.ofError e)) := Pays.of_error p hrun
        exact howes

instance pays_nested (p : Parser α) [Pays p] : Pays (nested p) where
  paid s := by
    rw [run_nested]
    cases hrun : p s with
    | ok value s' =>
        have hpays : s.Pays s' := Pays.of_ok p hrun
        exact hpays
    | error e s' =>
        have howes : s.Owes (s'.reported (.ofError e)) := Pays.of_error p hrun
        exact howes

instance pays_enterNesting : Pays enterNesting where
  paid s := by
    rw [run_enterNesting]
    split
    · exact (State.Pays.reported rfl s).owes
    · exact .refl s

/-! ### Lists of items and of statements -/

instance pays_itemsWithin (item : Parser Node) [Pays item] (items : List Node) (budget : List Slot) :
    Pays (itemsWithin item items budget) := by
  induction budget generalizing items with
  | nil =>
      unfold itemsWithin
      infer_instance
  | cons slot budget ih =>
      unfold itemsWithin
      infer_instance

instance pays_itemsBefore (closer : TokenKind) (item : Parser Node) [Pays item] :
    Pays (itemsBefore closer item) := by
  unfold itemsBefore items
  infer_instance

instance pays_bracketed (opener closer : TokenKind) (expressionList : Bool) (item : Parser Node) [Pays item] :
    Pays (bracketed opener closer expressionList item) := by
  rw [bracketed_eq]
  infer_instance

theorem paid_reportAndRecover {s s' : State} {e : SyntaxError} (h : s.Owes (s'.reported (.ofError e)))
    (mark : Mark) (inBlock : Bool) (f : Node → α) :
    Paid s ((do report e; return f (← recover mark inBlock) : Parser α) s') := by
  simp only [run_bind, run_report, run_recover, run_pure]
  exact h.recovered mark inBlock

instance pays_requireSeparator (inBlock : Bool) : Pays (requireSeparator inBlock) where
  paid s := by
    have hskip : Pays (do skipSeparators; return none : Parser (Option Node)) := inferInstance
    unfold requireSeparator
    rw [run_bind, run_get]
    dsimp only
    split
    · exact hskip.paid s
    · split
      · exact .refl s
      · exact paid_reportAndRecover (State.owes_missingSeparator s) _ _ _

instance pays_statementOrError (statement : Parser Node) [Pays statement] (inBlock : Bool) :
    Pays (statementOrError statement inBlock) where
  paid s := by
    have hseparator : ∀ node, Pays (do return node :: (← requireSeparator inBlock).toList) :=
      fun _ => inferInstance
    unfold statementOrError
    simp only [run_bind, run_get, run_attempt]
    cases hrun : statement s with
    | ok node s' => exact ((hseparator node).paid s').trans (Pays.of_ok statement hrun)
    | error e s' => exact paid_reportAndRecover (Pays.of_error statement hrun) _ _ _

instance pays_statementList (statement : Parser Node) [Pays statement] (inBlock : Bool) :
    Pays (statementList statement inBlock) := by
  have hwithin : ∀ body budget, Pays (statementsWithin statement inBlock body budget) := by
    intro body budget
    induction budget generalizing body with
    | nil =>
        unfold statementsWithin
        infer_instance
    | cons slot budget ih =>
        unfold statementsWithin
        infer_instance
  unfold statementList
  infer_instance

/-! ### Forms -/

class Inner.Pays (inner : Inner) : Prop where
  expression : ∀ power, Parser.Pays (inner.expression power)
  block : Parser.Pays inner.block

instance pays_innerExpression (inner : Inner) [h : Inner.Pays inner] (power : BindingPower) :
    Pays (inner.expression power) :=
  h.expression power

instance pays_innerBlock (inner : Inner) [h : Inner.Pays inner] : Pays inner.block :=
  h.block

instance pays_missingExpression : Pays missingExpression := by
  unfold missingExpression
  have hgap : ∀ s : State, Pays (reportDiagnostic
      (if s.slot.commentBefore.isSome then
        (Diagnostic.ofError s.missingExpression).withNote "comments are not expressions"
      else Diagnostic.ofError s.missingExpression)) := by
    intro s
    refine pays_reportDiagnostic ?_
    split <;> rfl
  infer_instance

instance pays_literal : Pays literal := by
  unfold literal
  have hkind : ∀ s : State, Pays (do
      match literalKind? s.kind with
      | some kind => do
          let token ← advance
          return Node.leaf kind token.span token.text
      | none => failWith (·.unexpected "a literal")) := by
    intro s
    cases literalKind? s.kind <;> infer_instance
  infer_instance

instance pays_identifier : Pays identifier := by
  unfold identifier
  infer_instance

instance pays_parameterList : Pays parameterList := by
  unfold parameterList
  infer_instance

/-- The token that is passed pays for its own error. -/
instance pays_lexicalError : Pays lexicalError where
  paid s := by
    unfold lexicalError
    rw [run_bind, run_advance]
    dsimp only
    rw [State.kind_current]
    cases hkind : s.kind with
    | error e => exact (State.Pays.refl s.advanced).complained (State.complaint?_of_error hkind)
    | _ => exact s.pays_advanced

section
variable (inner : Inner) [Inner.Pays inner]

instance pays_keyValuePair : Pays (keyValuePair inner) := by
  unfold keyValuePair
  infer_instance

instance pays_operand (form : OperandForm) : Pays (operand inner form) := by
  cases form with
  | literal | lexicalError =>
      unfold operand
      infer_instance
  | name =>
      unfold operand nameOrCall arguments
      infer_instance
  | array =>
      unfold operand array
      infer_instance
  | object =>
      unfold operand object
      infer_instance
  | lambda =>
      unfold operand lambda
      infer_instance
  | macroCall =>
      unfold operand macroCall arguments
      infer_instance
  | awaitExpr =>
      unfold operand awaitExpr
      infer_instance
  | bang =>
      unfold operand bang
      infer_instance

instance pays_rightOperand (power : BindingPower) : Pays (rightOperand inner power) := by
  unfold rightOperand
  infer_instance

instance pays_continuation (power : BindingPower) (left : Node) (form : OperatorForm) :
    Pays (continuation inner power left form) := by
  cases form with
  | binary =>
      unfold continuation binary
      infer_instance
  | membership =>
      unfold continuation membership
      infer_instance
  | range =>
      unfold continuation range
      infer_instance
  | member =>
      unfold continuation member
      infer_instance
  | subscript =>
      unfold continuation subscript
      infer_instance

instance pays_assignmentOrExpression : Pays (assignmentOrExpression inner) := by
  unfold assignmentOrExpression
  have htarget : ∀ kind target, Pays (checkedTarget kind target) := by
    intro kind target
    have hreport := pays_report (e := ⟨.invalidTarget target.kind.name, target.span⟩) rfl
    unfold checkedTarget
    infer_instance
  have hafter : ∀ (target : Node) (s : State), Pays (do
      match assignmentKind? s.kind with
      | none => return Node.branch .expressionStmt target.span [target]
      | some kind =>
          let operator ← advance
          let value ← inner.expression .assignment
          let target ← checkedTarget kind target
          let literal := if kind = .compoundAssign then some operator.text else none
          return ⟨kind, [target, value], target.span.through value.span, literal⟩) := by
    intro target s
    cases assignmentKind? s.kind <;> infer_instance
  infer_instance

instance pays_functionDecl : Pays (functionDecl inner) := by
  have hword : Pays asyncWord := by
    unfold asyncWord
    infer_instance
  have hlater : ∀ before, Pays (laterAsyncWord before) := by
    intro before
    unfold laterAsyncWord
    infer_instance
  rw [functionDecl_eq]
  infer_instance

instance pays_structMember (seenMethod : Bool) : Pays (structMember inner seenMethod) := by
  have hfield : Pays (structField inner) := by
    unfold structField
    infer_instance
  have hchecked : ∀ field, Pays (checkedField seenMethod field) := by
    intro field
    have hreport := pays_report (e := ⟨.fieldAfterMethod (field.name?.getD ""), field.span⟩) rfl
    unfold checkedField
    infer_instance
  unfold structMember
  have hkind : ∀ s : State, Pays (do
      match s.kind with
      | .keyword .fnKw | .keyword .asyncKw => return (← functionDecl inner, true)
      | .identifier => return (← checkedField seenMethod (← structField inner), false)
      | _ => failWith (·.unexpected "a struct field or method")) := by
    intro s
    split <;> infer_instance
  infer_instance

instance pays_importStmt : Pays importStmt := by
  have hsegments : ∀ segments budget, Pays (segmentsWithin segments budget) := by
    intro segments budget
    induction budget generalizing segments with
    | nil =>
        unfold segmentsWithin
        infer_instance
    | cons slot budget ih =>
        unfold segmentsWithin
        infer_instance
  have hpath : Pays importPath := by
    have hreport : ∀ scheme span, Pays (report ⟨.unknownScheme scheme, span⟩) := fun _ _ => pays_report rfl
    unfold importPath segments
    infer_instance
  have hnames : Pays importedNames := by
    have hnone : ∀ span, Pays (throw ⟨.expectedToken "at least one imported name" "\x7d", span⟩ : Parser (List Node)) :=
      fun _ => pays_throw rfl
    unfold importedNames
    infer_instance
  have hnameImport : Pays nameImport := by
    unfold nameImport
    infer_instance
  have hpathImport : Pays pathImport := by
    unfold pathImport
    infer_instance
  unfold importStmt
  infer_instance

instance pays_clause (isElse : Bool) : Pays (clause inner isElse) := by
  unfold clause
  infer_instance

instance pays_clausesWithin (seenElse : Bool) (clauses : List Node) (budget : List Slot) :
    Pays (clausesWithin inner seenElse clauses budget) := by
  have hchecked : ∀ seenElse isElse opening node, Pays (checkedClause seenElse isElse opening node) := by
    intro seenElse isElse opening node
    have hreport : Pays (report ⟨if isElse then .duplicateElse else .elifAfterElse, opening.span⟩) := by
      cases isElse <;> exact pays_report rfl
    unfold checkedClause
    infer_instance
  induction budget generalizing seenElse clauses with
  | nil =>
      unfold clausesWithin
      infer_instance
  | cons slot budget ih =>
      unfold clausesWithin
      have hkind : ∀ s : State, Pays (do
          match clauseKind? s.kindPastNewlines with
          | none => return clauses.reverse
          | some isElse =>
              skipNewlines
              let (opening, node) ← clause inner isElse
              let node ← checkedClause seenElse isElse opening node
              clausesWithin inner (seenElse || isElse) (node :: clauses) budget) := by
        intro s
        cases clauseKind? s.kindPastNewlines <;> infer_instance
      infer_instance

end

/-! ### Braces that are not closed -/

/-- A step that pays for what it reports, but perhaps not for the error that it fails with. -/
def PaysBut (e : SyntaxError) (p : Parser α) : Prop :=
  ∀ s, Paid s (p s) ∨ ∃ s', p s = .error e s' ∧ s.Pays s'

namespace PaysBut

variable {e : SyntaxError}

theorem of_pays (p : Parser α) [hp : Pays p] : PaysBut e p := fun s => .inl (hp.paid s)

theorem throw : PaysBut e (throw e : Parser α) := fun s => .inr ⟨s, rfl, .refl s⟩

theorem bind {p : Parser α} {f : α → Parser β} (hp : PaysBut e p) (hf : ∀ value, PaysBut e (f value)) :
    PaysBut e (p >>= f) := by
  intro s
  rw [run_bind]
  rcases hp s with hpaid | ⟨s', hrun, hpays⟩
  · cases hrun : p s with
    | ok value s' =>
        rw [hrun] at hpaid
        have hpays : s.Pays s' := hpaid
        rcases hf value s' with hlater | ⟨s'', hfails, hlater⟩
        · exact .inl (hlater.trans hpays)
        · exact .inr ⟨s'', hfails, hpays.trans hlater⟩
    | error e' s' =>
        rw [hrun] at hpaid
        exact .inl hpaid
  · rw [hrun]
    exact .inr ⟨s', rfl, hpays⟩

theorem delimited {p : Parser α} (hp : PaysBut e p) (closer : TokenKind) (expressionList : Bool) :
    PaysBut e (Parser.delimited closer expressionList p) := by
  intro s
  rw [run_delimited]
  rcases hp (s.opened closer expressionList) with hpaid | ⟨s', hrun, hpays⟩
  · left
    cases hrun : p (s.opened closer expressionList) with
    | ok value s' =>
        rw [hrun] at hpaid
        have hpays : (s.opened closer expressionList).Pays s' := hpaid
        exact hpays
    | error e' s' =>
        rw [hrun] at hpaid
        have howes : (s.opened closer expressionList).Owes (s'.reported (.ofError e')) := hpaid
        exact howes
  · rw [hrun]
    exact .inr ⟨s'.closed, rfl, hpays⟩

end PaysBut

section
variable (inner : Inner) [Inner.Pays inner]

theorem paysBut_structMembersWithin (opener : Span) (seenMethod : Bool) (members : List Node)
    (budget : List Slot) : PaysBut ⟨.unterminatedBlock opener.start.line, opener⟩
      (structMembersWithin inner opener seenMethod members budget) := by
  induction budget generalizing seenMethod members with
  | nil =>
      unfold structMembersWithin
      exact .throw
  | cons slot budget ih =>
      unfold structMembersWithin
      refine .bind (.of_pays _) fun _ => .bind (.of_pays _) fun s => ?_
      split
      · exact .of_pays _
      · exact .throw
      · refine .bind (.of_pays _) fun member => .bind (.of_pays _) fun s' => ?_
        split
        · exact ih _ _
        · exact .of_pays _

/-- The brace of a structure pays for the error that it is not closed. -/
instance pays_structDecl : Pays (structDecl inner) := by
  unfold structDecl
  refine .bind fun opening => .bind fun name => ⟨fun s => ?_⟩
  rw [run_bind, run_expect]
  by_cases hopener : s.kind = .leftBrace
  · rw [if_pos hopener]
    have hmembers : PaysBut ⟨.unterminatedBlock s.current.span.start.line, s.current.span⟩
        (Parser.delimited .rightBrace false (do
          structMembersWithin inner s.current.span false [] (← get).rest) : Parser (List Node)) :=
      (PaysBut.bind (.of_pays _) fun _ => paysBut_structMembersWithin inner _ _ _ _).delimited _ _
    have hwhole := PaysBut.bind hmembers fun members => PaysBut.of_pays (do
      let closing ← expect .rightBrace
      return Node.branch .structDecl (opening.span.through closing.span) (name :: members))
    rcases hwhole s.advanced with hpaid | ⟨s', hrun, hpays⟩
    · exact hpaid.trans s.pays_advanced
    · dsimp only
      rw [hrun]
      exact (hpays.complained (State.complaint?_of_leftBrace hopener)).owes
  · rw [if_neg hopener]
    exact State.owes_unexpected s _

/-- The brace of a block pays for the report that it is not closed. -/
instance pays_blockOf (statement : Parser Node) [Pays statement] : Pays (blockOf statement) where
  paid s := by
    unfold blockOf
    rw [run_bind, run_expect]
    by_cases hopener : s.kind = .leftBrace
    · rw [if_pos hopener]
      dsimp only
      rw [run_bind]
      cases hbody : Parser.delimited .rightBrace false (statementList statement true) s.advanced with
      | ok body s' =>
          have hpays : s.advanced.Pays s' := Pays.of_ok _ hbody
          dsimp only
          rw [run_bind, run_get]
          dsimp only
          split
          · exact s.pays_advanced.trans (hpays.trans s'.pays_advanced)
          · exact hpays.complained (State.complaint?_of_leftBrace hopener)
      | error e s' => exact s.pays_advanced.trans_owes (Pays.of_error _ hbody)
    · rw [if_neg hopener]
      exact State.owes_unexpected s _

/-! ### Statements and levels -/

instance pays_statementIn : Pays (statementIn inner) := by
  have hform : ∀ form, Pays (statementOf inner form) := by
    intro form
    cases form with
    | functionDecl =>
        unfold statementOf functionStmt
        infer_instance
    | macroDecl =>
        unfold statementOf macroDecl
        infer_instance
    | structDecl | importStmt =>
        unfold statementOf
        infer_instance
    | forStmt =>
        unfold statementOf forStmt
        infer_instance
    | ifStmt =>
        unfold statementOf ifStmt
        infer_instance
    | returnStmt =>
        unfold statementOf returnStmt
        infer_instance
  unfold statementIn
  have hnext : ∀ token : Token, Pays (do
      match token.kind.statementForm? with
      | some form => statementOf inner form
      | none => assignmentOrExpression inner) := by
    intro token
    cases token.kind.statementForm? <;> infer_instance
  infer_instance

end

instance pays_pendingOperator (power : BindingPower) : Pays (pendingOperator power) := by
  unfold pendingOperator
  have hform : ∀ s : State, Pays (do
      match s.kind.operatorForm? with
      | some (next, form) => return if power < next then some (next, form) else none
      | none => return none) := by
    intro s
    cases s.kind.operatorForm? <;> infer_instance
  infer_instance

theorem pays_levels (levels : Nat) :
    (∀ power, Pays (expressionAt levels power)) ∧ (∀ power left, Pays (climbAt levels power left)) ∧
      Pays (blockAt levels) := by
  induction levels with
  | zero =>
      refine ⟨fun power => ?_, fun power left => ?_, ?_⟩
      · unfold expressionAt
        infer_instance
      · unfold climbAt
        refine .bind fun pending => ?_
        cases pending <;> infer_instance
      · unfold blockAt
        infer_instance
  | succ levels ih =>
      obtain ⟨hexpression, hclimb, hblock⟩ := ih
      have hinner : Inner.Pays ⟨expressionAt levels, blockAt levels⟩ := ⟨hexpression, hblock⟩
      refine ⟨fun power => ?_, fun power left => ?_, ?_⟩
      · unfold expressionAt
        refine @pays_nested _ _ (.bind fun _ => .bind fun s => ?_)
        cases s.kind.operandForm? <;> infer_instance
      · unfold climbAt
        refine .bind fun pending => ?_
        cases pending <;> infer_instance
      · unfold blockAt
        infer_instance

instance pays_inner (levels : Nat) : Inner.Pays ⟨expressionAt levels, blockAt levels⟩ :=
  ⟨(pays_levels levels).1, (pays_levels levels).2.2⟩

instance pays_statement : Pays statement := by
  unfold statement here
  infer_instance

end Parser

/-! ### The complaints of a source -/

theorem Token.span_of_complaint? {t : Token} {d : Diagnostic} (h : t.complaint? = some d) : d.span = t.span := by
  unfold complaint? at h
  split at h <;> cases h <;> rfl

/-- The diagnostics do not start at the same place. -/
def Diagnostic.Apart (d e : Diagnostic) : Prop := d.span.start.offset ≠ e.span.start.offset

section
variable (source : String) (options : Options)

theorem apart_complaints_ofSource :
    (Slot.complaints (State.ofSource source options).rest).Pairwise Diagnostic.Apart := by
  have hbefore := before_ofSource source options
  rw [State.slots] at hbefore
  refine List.pairwise_filterMap.mpr ((List.pairwise_append.mp hbefore).1.imp ?_)
  intro slot later hlt d hd e he
  rw [Diagnostic.Apart, Token.span_of_complaint? hd, Token.span_of_complaint? he]
  exact Nat.ne_of_lt hlt

/-- A parse makes the complaints that its tokens cause, none more often than they do. -/
theorem subperm_complaints :
    ((parse source options).diagnostics.filter (·.isComplaint)).Subperm
      (Slot.complaints (State.ofSource source options).rest) := by
  obtain ⟨body, s', hrun, hresult⟩ := parseTokens_eq options Position.origin source.toList
  have hpays : (State.ofSource source options).Pays s' := Parser.Pays.of_ok _ hrun
  refine List.subperm_ext_iff.mpr fun d hd => ?_
  obtain ⟨-, hcomplaint⟩ := List.mem_filter.mp hd
  have hchances := hpays d hcomplaint
  have hnone : (State.ofSource source options).reports = [] := by
    rw [State.ofSource, tokenize, State.ofTokens_lexemes]
  rw [State.chances, State.chances, hnone, List.count_nil] at hchances
  rw [List.count_filter hcomplaint, parse_eq_parseTokens, hresult, State.diagnostics,
    (Diagnostic.inSourceOrder_perm _).count_eq, List.count_reverse]
  omega

theorem apart_complaints {p : Diagnostic → Bool} (hp : ∀ d, p d → d.isComplaint) :
    ((parse source options).diagnostics.filter p).Pairwise Diagnostic.Apart := by
  obtain ⟨made, hperm, hmade⟩ := subperm_complaints source options
  have hapart := (hperm.pairwise_iff Ne.symm).mp ((apart_complaints_ofSource source options).sublist hmade)
  exact hapart.sublist (List.monotone_filter_right _ hp)

variable {source options}

theorem exists_token_of_isComplaint {d : Diagnostic} (hd : d ∈ (parse source options).diagnostics)
    (hcomplaint : d.isComplaint) : ∃ t ∈ tokenize source, t.complaint? = some d := by
  have hcaused := (subperm_complaints source options).subset (List.mem_filter.mpr ⟨hd, hcomplaint⟩)
  obtain ⟨slot, hslot, hcauses⟩ := List.mem_filterMap.mp hcaused
  rw [rest_ofSource] at hslot
  refine ⟨slot.token, ?_, hcauses⟩
  rw [tokenize, Scan.tokens_eq]
  exact List.mem_append_left _ (Slot.token_mem hslot)

end

end ScriptSyntax
