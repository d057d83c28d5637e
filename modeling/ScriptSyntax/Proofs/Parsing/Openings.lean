import ScriptSyntax.Proofs.Parsing.Rounds

/-!
The beginnings of statements.  A statement consumes its first token before any bracket is open, or fails
there, so the comment before that token leaves no trace: `statementList_uncommented`.
-/

namespace ScriptSyntax

namespace State

/-- A statement can begin at the state: no bracket is open, and what is next does not end a statement. -/
structure Ready (s : State) : Prop where
  delimiters : s.delimiters = []
  boundary : s.atBoundary = false

/-- The state without the comment before its next token. -/
def uncommented (s : State) : State :=
  { s with rest := match s.rest with
      | [] => []
      | slot :: slots => ⟨slot.token, none⟩ :: slots }

theorem noted_of_delimiters {s : State} (h : s.delimiters = []) (slot : Slot) : s.noted slot = s := by
  unfold noted
  rw [h]
  simp only [List.head?_nil, Option.any_none, Bool.and_false, Bool.false_eq_true, if_false]
  split <;> rfl

theorem reports_pastWhile {s : State} (h : s.delimiters = []) (p : TokenKind → Bool)
    (slots : List Slot) : (pastWhile p slots s).reports = s.reports := by
  induction slots generalizing s with
  | nil => rfl
  | cons slot slots ih =>
      unfold pastWhile
      split
      · have hadvanced : s.advanced.reports = s.reports := by
          unfold advanced
          split
          · rfl
          · rw [noted_of_delimiters h]
        rw [ih (s.advances_advanced.delimiters.trans h), hadvanced]
      · rfl

theorem rest_pastWhile {p : TokenKind → Bool} (s : State) :
    (pastWhile p s.rest s).rest = s.rest.dropWhile (p ·.kind) := by
  generalize hslots : s.rest = slots
  induction slots generalizing s with
  | nil => exact hslots
  | cons slot slots ih =>
      unfold pastWhile
      split
      · rename_i hkind
        simp [ih s.advanced (rest_advanced hslots), hkind]
      · rename_i hkind
        simp [hslots, hkind]

namespace Ready

variable {s : State}

theorem kind_ne (h : s.Ready) : s.kind ≠ .endOfFile := by
  intro hkind
  have hboundary := h.boundary
  simp [atBoundary, hkind] at hboundary

theorem isSeparator (h : s.Ready) : s.kind.isSeparator = false := by
  have hboundary := h.boundary
  simp only [atBoundary, Bool.or_eq_false_iff] at hboundary
  exact hboundary.1.1

theorem entered (h : s.Ready) : s.entered.Ready := ⟨h.delimiters, h.boundary⟩

theorem leaving (h : s.Ready) (depth : Nat) : (s.leaving depth).Ready := ⟨h.delimiters, h.boundary⟩

theorem logged (h : s.Ready) (event : Event) : (s.logged event).Ready := ⟨h.delimiters, h.boundary⟩

theorem reported (h : s.Ready) (d : Diagnostic) : (s.reported d).Ready :=
  ⟨h.delimiters, h.boundary⟩

theorem advanced_uncommented (h : s.Ready) : s.uncommented.advanced = s.advanced := by
  obtain ⟨slot, slots, hrest⟩ := exists_rest_eq_cons h.kind_ne
  have hnoted : s.noted slot = s := noted_of_delimiters h.delimiters slot
  have hrest' : s.uncommented.rest = ⟨slot.token, none⟩ :: slots := by
    simp [uncommented, hrest]
  simp only [advanced, hrest, hrest', hnoted]
  simp [uncommented, noted]

end Ready

theorem current_uncommented (s : State) : s.uncommented.current = s.current := by
  unfold uncommented current slot
  cases s.rest <;> rfl

theorem kind_uncommented (s : State) : s.uncommented.kind = s.kind :=
  congrArg Token.kind s.current_uncommented

theorem atBoundary_uncommented (s : State) : s.uncommented.atBoundary = s.atBoundary := by
  rw [atBoundary, atBoundary, kind_uncommented]
  rfl

theorem peek_uncommented (s : State) : s.uncommented.peek 1 = s.peek 1 := by
  unfold uncommented peek
  cases s.rest <;> rfl

theorem length_uncommented (s : State) : s.uncommented.rest.length = s.rest.length := by
  unfold uncommented
  cases s.rest <;> rfl

end State

namespace Parser

open State

variable {α β : Type}

/-- What a step gives at the beginning of a statement, with the comment before it and without: the same once
the step has gone on to fewer than `n` tokens, or the same error before it has. -/
inductive Opened (n : Nat) :
    EStateM.Result SyntaxError State α → EStateM.Result SyntaxError State α → Prop where
  | ok {value : α} {s : State} (hlength : s.rest.length < n) : Opened n (.ok value s) (.ok value s)
  | error {e : SyntaxError} {s : State} : Opened n (.error e s) (.error e s)
  | early {e : SyntaxError} {s : State} (hready : s.Ready) :
      Opened n (.error e s) (.error e s.uncommented)

theorem opened_self (p : Parser α) [Forward p] {n : Nat} {s : State} (hlength : s.rest.length < n) :
    Opened n (p s) (p s) := by
  cases hrun : p s with
  | ok value s' => exact .ok (Nat.lt_of_le_of_lt (Forward.advances_of_ok p hrun).length_le hlength)
  | error e s' => exact .error

/-- A step that consumes the next token first, or fails before it does. -/
def Opens (p : Parser α) : Prop :=
  ∀ s : State, s.Ready → Opened s.rest.length (p s) (p s.uncommented)

namespace Opens

theorem bind {p : Parser α} {f : α → Parser β} [∀ value, Forward (f value)] (hp : Opens p) :
    Opens (p >>= f) := by
  intro s hs
  have hfirst := hp s hs
  rw [run_bind, run_bind]
  generalize p s = first at hfirst
  generalize p s.uncommented = second at hfirst
  cases hfirst with
  | ok hlength => exact opened_self _ hlength
  | error => exact .error
  | early hready => exact .early hready

theorem advance : Opens advance := by
  intro s hs
  rw [run_advance, run_advance, current_uncommented, hs.advanced_uncommented]
  exact .ok (State.length_advanced hs.kind_ne)

theorem failWith {error : State → SyntaxError} (herror : ∀ s : State, error s.uncommented = error s) :
    Opens (failWith error : Parser α) := by
  intro s hs
  rw [run_failWith, run_failWith, herror]
  exact .early hs

theorem get {f : State → Parser α}
    (hf : ∀ s : State, s.Ready → Opened s.rest.length (f s s) (f s.uncommented s.uncommented)) :
    Opens (get >>= f) :=
  hf

theorem unexpected (expected : String) :
    Opens (Parser.failWith (·.unexpected expected) : Parser α) := by
  refine failWith fun s => ?_
  simp [State.unexpected, kind_uncommented, current_uncommented]

theorem nestingTooDeep : Opens (Parser.failWith (·.nestingTooDeep) : Parser α) := by
  refine failWith fun s => ?_
  simp [State.nestingTooDeep, current_uncommented]

theorem expect (kind : TokenKind) : Opens (expect kind) := by
  refine get fun s hs => ?_
  rw [kind_uncommented]
  split
  · exact advance s hs
  · exact unexpected _ s hs

theorem nested {p : Parser α} (hp : Opens p) : Opens (nested p) := by
  intro s hs
  have hrun := hp s hs
  have hdepth : s.uncommented.depth = s.depth := rfl
  rw [run_nested, run_nested, hdepth]
  generalize p s = first at hrun
  generalize p s.uncommented = second at hrun
  cases hrun with
  | ok hlength => exact .ok hlength
  | error => exact .error
  | early hready => exact .early (hready.leaving _)

theorem afterEntering {f : Unit → Parser α} (hf : Opens (f ())) : Opens (enterNesting >>= f) := by
  intro s hs
  have hdepth : s.uncommented.depth = s.depth := rfl
  have herror : s.uncommented.nestingTooDeep = s.nestingTooDeep := by
    simp [State.nestingTooDeep, current_uncommented]
  rw [run_bind, run_bind]
  by_cases hdeep : nestingLimit ≤ s.depth
  · simp only [run_enterNesting, hdepth, hdeep, if_true, herror]
    exact .early hs
  · simp only [run_enterNesting, hdepth, hdeep, if_false]
    exact hf s.entered hs.entered

end Opens

/-! ### Expressions -/

theorem opens_missingExpression : Opens missingExpression := by
  refine .get fun s hs => ?_
  simp only [atBoundary_uncommented, hs.boundary, Bool.false_eq_true, if_false]
  refine Opens.failWith (fun s => ?_) s hs
  simp [State.missingExpression, current_uncommented]

theorem opens_literal : Opens literal := by
  refine .get fun s hs => ?_
  rw [kind_uncommented]
  cases literalKind? s.kind with
  | none => exact Opens.unexpected _ s hs
  | some kind => exact Opens.bind .advance s hs

theorem opens_identifier : Opens identifier :=
  .bind (.expect .identifier)

theorem opens_bracketed (opener closer : TokenKind) (expressionList : Bool) (item : Parser Node)
    [Forward item] : Opens (bracketed opener closer expressionList item) := by
  rw [bracketed_eq]
  exact .bind (.expect opener)

theorem opens_lexicalError : Opens lexicalError := by
  have hafter := keeps_afterErrorToken (R := State.Advances)
  exact .bind .advance

section
variable (inner : Inner) [Inner.Forward inner]

theorem opens_operand (form : OperandForm) : Opens (operand inner form) := by
  cases form with
  | literal => exact opens_literal
  | name => exact .bind opens_identifier
  | array => exact .bind (opens_bracketed _ _ _ _)
  | object => exact .bind (opens_bracketed _ _ _ _)
  | lambda => exact .bind .advance
  | macroCall => exact .bind .advance
  | awaitExpr => exact .bind .advance
  | bang => exact .bind .advance
  | lexicalError => exact opens_lexicalError

/-! ### Statements -/

theorem opens_assignmentOrExpression (hexpression : ∀ power, Opens (inner.expression power)) :
    Opens (assignmentOrExpression inner) := by
  have hafter := keeps_afterTarget (R := State.Advances) inner
  exact .bind (hexpression .assignment)

theorem opens_functionDecl : Opens (functionDecl inner) := by
  rw [functionDecl_eq]
  refine .get fun s hs => ?_
  rw [current_uncommented, run_bind, run_bind, run_asyncWord, run_asyncWord, kind_uncommented,
    hs.advanced_uncommented]
  by_cases hasync : s.kind = .keyword .asyncKw
  · simp only [hasync, if_true]
    exact opened_self _ (State.length_advanced hs.kind_ne)
  · simp only [hasync, if_false]
    exact Opens.bind (.expect _) s hs

theorem opens_functionStmt (hexpression : ∀ power, Opens (inner.expression power)) :
    Opens (functionStmt inner) := by
  refine .get fun s hs => ?_
  rw [kind_uncommented, peek_uncommented]
  split
  · exact opens_assignmentOrExpression inner hexpression s hs
  · exact opens_functionDecl inner s hs

theorem opens_statementOf (hexpression : ∀ power, Opens (inner.expression power))
    (form : StatementForm) : Opens (statementOf inner form) := by
  cases form with
  | functionDecl => exact opens_functionStmt inner hexpression
  | macroDecl => exact .bind .advance
  | structDecl => exact .bind .advance
  | importStmt => exact .bind .advance
  | forStmt => exact .bind .advance
  | ifStmt => exact .bind .advance
  | returnStmt => exact .bind .advance

theorem opens_statementIn (hexpression : ∀ power, Opens (inner.expression power)) :
    Opens (statementIn inner) := by
  intro s hs
  simp only [statementIn, run_bind, run_get, run_log, current_uncommented]
  cases s.current.kind.statementForm? with
  | none => exact opens_assignmentOrExpression inner hexpression _ (hs.logged _)
  | some form => exact opens_statementOf inner hexpression form _ (hs.logged _)

end

/-! ### Nesting -/

theorem opens_expressionAt (levels : Nat) (power : BindingPower) : Opens (expressionAt levels power) := by
  cases levels with
  | zero =>
      unfold expressionAt
      exact .nestingTooDeep
  | succ levels =>
      have hforward := (forward_levels levels).2.1
      unfold expressionAt
      refine .nested <| .afterEntering <| .get fun s hs => ?_
      rw [kind_uncommented]
      cases s.kind.operandForm? with
      | none => exact opens_missingExpression s hs
      | some form => exact Opens.bind (opens_operand _ form) s hs

theorem opens_statement : Opens statement := by
  refine .get fun s hs => ?_
  exact opens_statementIn _ (opens_expressionAt _) s hs

theorem length_lt_of_statement {s s' : State} {node : Node} (hs : s.Ready)
    (hrun : statement s = .ok node s') : s'.rest.length < s.rest.length := by
  have hopened := opens_statement s hs
  rw [hrun] at hopened
  generalize statement s.uncommented = second at hopened
  cases hopened with
  | ok hlength => exact hlength

/-! ### Lists of statements -/

/-- A mark stands for its place and for the tokens behind it, not for their comments. -/
theorem recovered_congr {mark mark' : Mark} (hindex : mark.index = mark'.index)
    (hslots : mark.slots.map (·.token) = mark'.slots.map (·.token)) (s : State) (inBlock : Bool) :
    s.recovered mark inBlock = s.recovered mark' inBlock ∧ s.spanSince mark = s.spanSince mark' := by
  have hspan : ∀ s : State, s.spanSince mark = s.spanSince mark' := by
    intro s
    simp only [State.spanSince, hindex]
    cases hfirst : mark.slots with
    | nil =>
        rw [hfirst, List.map_nil, eq_comm, List.map_eq_nil_iff] at hslots
        rw [hslots]
    | cons slot slots =>
        rw [hfirst, List.map_cons, eq_comm, List.map_eq_cons_iff] at hslots
        obtain ⟨slot', slots', hsecond, htoken, -⟩ := hslots
        simp only [hsecond, htoken]
  have hkinds : ∀ count, (mark.slots.take count).map (·.kind) = (mark'.slots.take count).map (·.kind) := by
    intro count
    have htokens : ∀ slots : List Slot, (slots.take count).map (·.kind) =
        ((slots.map (·.token)).take count).map (·.kind) := by
      intro slots
      rw [← List.map_take, List.map_map]
      rfl
    rw [htokens, htokens, hslots]
  refine ⟨?_, hspan s⟩
  simp only [State.recovered, hindex, hkinds, hspan]

theorem recovered_uncommented {s : State} (hs : s.Ready) (mark : Mark) :
    s.uncommented.recovered mark false = s.recovered mark false := by
  have hconsumed : s.uncommented.consumed = s.consumed := rfl
  have hbroken : ∀ owed, State.pastBroken false owed s.uncommented.rest s.uncommented =
      State.pastBroken false owed s.rest s := by
    intro owed
    have hrest : s.rest ≠ [] := fun hrest => hs.kind_ne (State.kind_of_nil hrest)
    have hrest' : s.uncommented.rest ≠ [] := by
      rw [← List.length_pos_iff, length_uncommented]
      exact List.length_pos_iff.mpr hrest
    rw [pastBroken_eq false owed s.uncommented, pastBroken_eq false owed s, kind_uncommented,
      hs.advanced_uncommented]
    simp [hrest, hrest', isRecoveryPoint, hs.isSeparator]
  simp only [State.recovered, hconsumed, hbroken]

theorem statementRound_uncommented {s : State} (hs : s.Ready) :
    statementRound statement false s.uncommented = statementRound statement false s := by
  have hslots : s.uncommented.mark.slots.map (·.token) = s.mark.slots.map (·.token) := by
    simp only [State.mark, uncommented]
    cases s.rest <;> rfl
  have hmark := fun s' => @recovered_congr s.uncommented.mark s.mark rfl hslots s' false
  have hrun := opens_statement s hs
  simp only [statementRound, run_bind, run_get, run_attempt]
  generalize statement s = first at hrun
  generalize statement s.uncommented = second at hrun
  -- the mark of the round still holds the comment, but recovery and spans do not look at it
  cases hrun with
  | ok => rfl
  | @error e s' =>
      simp only [afterAttempt, run_bind, run_report, run_recover, run_pure, (hmark _).1, (hmark _).2]
  | @early e s' hready =>
      have hreported : s'.uncommented.reported (.ofError e) = (s'.reported (.ofError e)).uncommented := rfl
      simp only [afterAttempt, run_bind, run_report, run_recover, run_pure, (hmark _).1, (hmark _).2,
        hreported, recovered_uncommented (hready.reported _)]

theorem statementList_uncommented {s : State} (hs : s.Ready) :
    statementList statement false s.uncommented = statementList statement false s := by
  have hpast : s.pastSeparators = s := pastWhile_eq_self hs.isSeparator
  have hpast' : s.uncommented.pastSeparators = s.uncommented :=
    pastWhile_eq_self (by rw [kind_uncommented]; exact hs.isSeparator)
  rw [statementList_eq]
  simp only [run_bind, run_skipSeparators, run_get, run_ite, hpast, hpast', atListEnd,
    kind_uncommented, statementRound_uncommented hs, hs.kind_ne, decide_false, Bool.false_and,
    Bool.or_false, Bool.false_eq_true, if_false]

end Parser

end ScriptSyntax
