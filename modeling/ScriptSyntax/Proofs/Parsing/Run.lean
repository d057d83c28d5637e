import ScriptSyntax.Parsing.Nesting

/-!
Steps of a parse run on a state.  Every step is built from a few primitive ones by `bind`, so what a
form does to a state is read off by rewriting with the equations of this module.
-/

namespace ScriptSyntax

namespace State

def entered (s : State) : State :=
  { s with depth := s.depth + 1, deepest := max s.deepest (s.depth + 1) }

def leaving (s : State) (depth : Nat) : State := { s with depth }

/-- The state inside a bracket that `closer` closes. -/
def opened (s : State) (closer : TokenKind) (expressionList : Bool) : State :=
  { s with delimiters := ⟨closer, expressionList⟩ :: s.delimiters }

def closed (s : State) : State := { s with delimiters := s.delimiters.tail }

def logged (s : State) (event : Event) : State := { s with journal := event :: s.journal }

/-- The state past the tokens at the start of `slots`, which are those left, that satisfy `p`. -/
def pastWhile (p : TokenKind → Bool) : List Slot → State → State
  | [], s => s
  | slot :: slots, s => if p slot.kind then pastWhile p slots s.advanced else s

def pastNewlines (s : State) : State := pastWhile (· = .newline) s.rest s

def pastSeparators (s : State) : State := pastWhile TokenKind.isSeparator s.rest s

/-- The state past the tokens at the start of `slots`, which are those left, up to the next recovery
point; `owed` are the closers owed by the tokens before them. -/
def pastBroken (inBlock : Bool) : List TokenKind → List Slot → State → State
  | _, [], s => s
  | owed, slot :: slots, s =>
      if Parser.isRecoveryPoint inBlock owed slot.kind then s
      else pastBroken inBlock (Bracket.next owed slot.kind) slots s.advanced

/-- The span of the tokens consumed since a mark; empty if there are none. -/
def spanSince (s : State) (mark : Mark) : Span :=
  let start := match mark.slots with
    | slot :: _ => slot.token.span.start
    | [] => s.endOfFile
  if mark.index < s.consumed then s.spanFrom start else Span.empty start

/-- The state after the recovery from a statement that began at a mark. -/
def recovered (s : State) (mark : Mark) (inBlock : Bool) : State :=
  let behind := mark.slots.take (s.consumed - mark.index)
  let s' := pastBroken inBlock (Bracket.owed (behind.map (·.kind))) s.rest s
  s'.logged (.recovered (s'.spanSince mark).stop (s'.consumed - mark.index))

end State

namespace Parser

variable {α β : Type}

def finalState (p : Parser α) (s : State) : State :=
  match p s with
  | .ok _ s' => s'
  | .error _ s' => s'

theorem run_bind (p : Parser α) (f : α → Parser β) (s : State) :
    (p >>= f) s = match p s with
      | .ok value s' => f value s'
      | .error e s' => .error e s' := by
  change EStateM.bind p f s = _
  unfold EStateM.bind
  cases p s <;> rfl

@[simp] theorem run_pure (value : α) (s : State) : (pure value : Parser α) s = .ok value s := rfl

@[simp] theorem run_get (s : State) : (get : Parser State) s = .ok s s := rfl

@[simp] theorem run_modify (f : State → State) (s : State) :
    (modify f : Parser Unit) s = .ok () (f s) := rfl

@[simp] theorem run_throw (e : SyntaxError) (s : State) :
    (throw e : Parser α) s = .error e s := rfl

@[simp] theorem run_failWith (error : State → SyntaxError) (s : State) :
    (failWith error : Parser α) s = .error (error s) s := rfl

@[simp] theorem run_advance (s : State) : advance s = .ok s.current s.advanced := rfl

@[simp] theorem run_log (event : Event) (s : State) : log event s = .ok () (s.logged event) := rfl

@[simp] theorem run_reportDiagnostic (d : Diagnostic) (s : State) :
    reportDiagnostic d s = .ok () (s.reported d) := rfl

@[simp] theorem run_report (e : SyntaxError) (s : State) :
    report e s = .ok () (s.reported (.ofError e)) := rfl

theorem run_expectOr (kind : TokenKind) (error : State → SyntaxError) (s : State) :
    expectOr kind error s =
      if s.kind = kind then .ok s.current s.advanced else .error (error s) s := by
  change (if s.kind = kind then advance else failWith error) s = _
  split <;> rfl

theorem run_expect (kind : TokenKind) (s : State) :
    expect kind s =
      if s.kind = kind then .ok s.current s.advanced
      else .error (s.unexpected kind.description) s :=
  run_expectOr kind _ s

theorem run_enterNesting (s : State) :
    enterNesting s =
      if nestingLimit ≤ s.depth then .error s.nestingTooDeep s else .ok () s.entered := by
  change (if nestingLimit ≤ s.depth then failWith (·.nestingTooDeep) else modify State.entered) s = _
  split <;> rfl

theorem run_skipWhile (p : TokenKind → Bool) (slots : List Slot) (s : State) :
    skipWhile p slots s = .ok () (State.pastWhile p slots s) := by
  induction slots generalizing s with
  | nil => rfl
  | cons slot slots ih =>
      change (if p slot.kind then advance >>= fun _ => skipWhile p slots else pure ()) s = _
      unfold State.pastWhile
      split
      · exact ih s.advanced
      · rfl

@[simp] theorem run_skipNewlines (s : State) : skipNewlines s = .ok () s.pastNewlines :=
  run_skipWhile _ _ s

@[simp] theorem run_skipSeparators (s : State) : skipSeparators s = .ok () s.pastSeparators :=
  run_skipWhile _ _ s

theorem run_skipToRecoveryPoint (inBlock : Bool) (owed : List TokenKind) (slots : List Slot)
    (s : State) :
    skipToRecoveryPoint inBlock owed slots s = .ok () (State.pastBroken inBlock owed slots s) := by
  induction slots generalizing owed s with
  | nil => rfl
  | cons slot slots ih =>
      change (if !isRecoveryPoint inBlock owed slot.kind then
        advance >>= fun _ => skipToRecoveryPoint inBlock (Bracket.next owed slot.kind) slots
        else pure ()) s = _
      unfold State.pastBroken
      cases isRecoveryPoint inBlock owed slot.kind with
      | true => rfl
      | false => exact ih _ s.advanced

@[simp] theorem run_recover (mark : Mark) (inBlock : Bool) (s : State) :
    recover mark inBlock s =
      .ok (Node.error ((s.recovered mark inBlock).spanSince mark) []) (s.recovered mark inBlock) := by
  unfold recover
  simp only [run_bind, run_get, run_skipToRecoveryPoint, run_log, run_pure]
  rfl

theorem run_delimited (closer : TokenKind) (expressionList : Bool) (p : Parser α) (s : State) :
    delimited closer expressionList p s = match p (s.opened closer expressionList) with
      | .ok value s' => .ok value s'.closed
      | .error e s' => .error e s'.closed := rfl

theorem run_nested (p : Parser α) (s : State) :
    nested p s = match p s with
      | .ok value s' => .ok value (s'.leaving s.depth)
      | .error e s' => .error e (s'.leaving s.depth) := rfl

theorem run_attempt (p : Parser α) (s : State) :
    attempt p s = match p s with
      | .ok value s' => .ok (.ok value) s'
      | .error e s' => .ok (.error e) s' := rfl

theorem run_ite (c : Prop) [Decidable c] (p q : Parser α) (s : State) :
    (if c then p else q) s = if c then p s else q s := by
  split <;> rfl

theorem bind_eq_ok {p : Parser α} {f : α → Parser β} {s s' : State} {result : β} :
    (p >>= f) s = .ok result s' ↔
      ∃ value middle, p s = .ok value middle ∧ f value middle = .ok result s' := by
  rw [run_bind]
  cases p s with
  | ok value middle =>
      constructor
      · intro h
        exact ⟨value, middle, rfl, h⟩
      · rintro ⟨_, _, hfirst, hsecond⟩
        cases hfirst
        exact hsecond
  | error e middle =>
      constructor
      · intro h
        cases h
      · rintro ⟨_, _, hfirst, -⟩
        cases hfirst

theorem expect_eq_ok {kind : TokenKind} {s s' : State} {token : Token} :
    expect kind s = .ok token s' ↔ s.kind = kind ∧ token = s.current ∧ s' = s.advanced := by
  rw [run_expect]
  split
  · rename_i hkind
    simp [hkind, eq_comm]
  · rename_i hkind
    simp [hkind]

theorem nested_eq_ok {p : Parser α} {s s' : State} {value : α} :
    nested p s = .ok value s' ↔ ∃ middle, p s = .ok value middle ∧ s' = middle.leaving s.depth := by
  rw [run_nested]
  cases p s with
  | ok v middle =>
      constructor
      · rintro ⟨⟩
        exact ⟨middle, rfl, rfl⟩
      · rintro ⟨_, ⟨⟩, rfl⟩
        rfl
  | error e middle => simp

theorem delimited_eq_ok {closer : TokenKind} {expressionList : Bool} {p : Parser α} {s s' : State}
    {value : α} :
    delimited closer expressionList p s = .ok value s' ↔
      ∃ middle, p (s.opened closer expressionList) = .ok value middle ∧ s' = middle.closed := by
  rw [run_delimited]
  cases p (s.opened closer expressionList) with
  | ok v middle =>
      constructor
      · rintro ⟨⟩
        exact ⟨middle, rfl, rfl⟩
      · rintro ⟨_, ⟨⟩, rfl⟩
        rfl
  | error e middle => simp

theorem enterNesting_eq_ok {s s' : State} {u : Unit} :
    enterNesting s = .ok u s' ↔ s.depth < nestingLimit ∧ s' = s.entered := by
  rw [run_enterNesting]
  split
  · rename_i hdeep
    simp [Nat.not_lt.mpr hdeep]
  · rename_i hdeep
    simp [Nat.lt_of_not_le hdeep, eq_comm]

theorem run_asyncWord (s : State) :
    asyncWord s = if s.kind = .keyword .asyncKw then .ok true s.advanced else .ok false s := by
  unfold asyncWord
  simp only [run_bind, run_get, run_ite, run_advance, run_pure]

/-- Consumes the word for an asynchronous function after the word for a function, unless it was
before. -/
def laterAsyncWord (before : Bool) : Parser Bool :=
  if before then pure true else asyncWord

theorem functionDecl_eq (inner : Inner) :
    functionDecl inner = do
      let s ← get
      let before ← asyncWord
      let _ ← expect (.keyword .fnKw)
      let isAsync ← laterAsyncWord before
      let name ← identifier
      let parameters ← parameterList
      let body ← inner.block
      let s' ← get
      return ⟨.functionDecl, [name, parameters, body], s'.spanFrom s.current.span.start,
        if isAsync then some "async" else none⟩ := by
  unfold functionDecl laterAsyncWord
  refine bind_congr fun s => bind_congr fun before => bind_congr fun _ => ?_
  cases before <;> rfl

/-- Reads the items of a list up to its closer. -/
def itemsBefore (closer : TokenKind) (item : Parser Node) : Parser (List Node) := do
  if (← get).kind = closer then return [] else items item

theorem bracketed_eq (opener closer : TokenKind) (expressionList : Bool) (item : Parser Node) :
    bracketed opener closer expressionList item = (do
      let first ← expect opener
      delimited closer expressionList do
        skipNewlines
        let nodes ← itemsBefore closer item
        let last ← expect closer
        return (nodes, first.span.through last.span)) := by
  unfold bracketed itemsBefore
  refine bind_congr fun first => congrArg (delimited closer expressionList) ?_
  refine bind_congr fun _ => ?_
  rw [bind_assoc]
  refine bind_congr fun s => ?_
  split <;> rfl

end Parser

end ScriptSyntax
