import ScriptSyntax.Proofs.Parsing.Rounds

/-!
What a handler leaves as it was.  A handler opens brackets and enters levels of nesting as it goes, and an error
inside goes up through any number of them; `IsHandler.frames` says that whatever the outcome, the state around the
handler is the one it began in.
-/

namespace ScriptSyntax

/-- The state `s'` is in the surroundings of `s`: some tokens are passed and some diagnostics are added. -/
structure State.Frames (s s' : State) : Prop where
  depth : s'.depth = s.depth
  delimiters : s'.delimiters = s.delimiters
  /-- No level past the limit was entered on the way. -/
  deepest : s'.deepest ≤ max s.deepest nestingLimit
  /-- The tokens left, each with the comment before it, are the last ones of those that were left. -/
  passes : ∃ passed, s.slots = passed ++ s'.slots ∧ s'.consumed = s.consumed + passed.length ∧
    s'.previousEnd = Slot.endAfter s.previousEnd passed
  start : s'.start = s.start
  options : s'.options = s.options
  /-- The diagnostics before, in the order in which they were found, come first. -/
  reports : s.reports.reverse <+: s'.reports.reverse

namespace State

theorem deepest_noted (s : State) (slot : Slot) : (s.noted slot).deepest = s.deepest := by
  unfold noted
  split
  · split <;> rfl
  · rfl

theorem deepest_advanced (s : State) : s.advanced.deepest = s.deepest := by
  unfold advanced
  split
  · rfl
  · exact deepest_noted s _

/-- The run from `s` to `s'` stays within the limit of nesting. -/
def StaysWithin (s s' : State) : Prop :=
  s.depth ≤ nestingLimit → s'.depth ≤ nestingLimit ∧ s'.deepest ≤ max s.deepest nestingLimit

theorem StaysWithin.refl (s : State) : s.StaysWithin s :=
  fun hdepth => ⟨hdepth, Nat.le_max_left _ _⟩

theorem StaysWithin.trans {first second third : State} (h : first.StaysWithin second)
    (h' : second.StaysWithin third) : first.StaysWithin third := by
  intro hdepth
  have hsecond := h hdepth
  have hthird := h' hsecond.1
  exact ⟨hthird.1, by omega⟩

end State

namespace Parser

instance steps_staysWithin : Steps State.StaysWithin where
  refl := .refl
  trans := .trans
  advanced s := by
    intro hdepth
    rw [State.depth_advanced, State.deepest_advanced]
    exact ⟨hdepth, Nat.le_max_left _ _⟩
  reported s _ _ := .refl s
  logged s _ := .refl s
  closed h := h
  leaving h := fun hdepth => ⟨hdepth, (h hdepth).2⟩

instance staysWithin_enterNesting : Keeps State.StaysWithin enterNesting where
  leads s := by
    intro hdepth
    unfold finalState
    rw [run_enterNesting]
    by_cases hdeep : nestingLimit ≤ s.depth
    · rw [if_pos hdeep]
      exact State.StaysWithin.refl s hdepth
    · rw [if_neg hdeep]
      have hentered : s.depth + 1 ≤ nestingLimit := Nat.lt_of_not_le hdeep
      have hdeepest : max s.deepest (s.depth + 1) ≤ max s.deepest nestingLimit := by omega
      exact ⟨hentered, hdeepest⟩

/-- The handlers: the readers of statements, expressions and blocks, of what these are made of and of lists of
them. -/
inductive IsHandler : {α : Type} → Parser α → Prop where
  | statement : IsHandler statement
  | statementOf (form : StatementForm) : IsHandler (here (statementOf · form))
  | assignmentOrExpression : IsHandler (here assignmentOrExpression)
  | functionDecl : IsHandler (here functionDecl)
  | structField : IsHandler (here structField)
  | importPath : IsHandler importPath
  | block : IsHandler block
  | expression (power : BindingPower) : IsHandler (expression power)
  | missingExpression : IsHandler missingExpression
  | operand (form : OperandForm) : IsHandler (here (operand · form))
  | continuation (power : BindingPower) (left : Node) (form : OperatorForm) :
      IsHandler (here (continuation · power left form))
  | identifier : IsHandler identifier
  | keyValuePair : IsHandler (here keyValuePair)
  | arguments : IsHandler (here arguments)
  | parameterList : IsHandler parameterList
  | list {item : Parser Node} (opener closer : TokenKind) (expressionList : Bool) (hitem : IsHandler item) :
      IsHandler (bracketed opener closer expressionList item)
  | statementList (inBlock : Bool) : IsHandler (statementList Parser.statement inBlock)
  | sourceFile : IsHandler sourceFile

theorem IsHandler.keeps {R : State → State → Prop} [Steps R]
    [∀ levels, Inner.Keeps R ⟨expressionAt levels, blockAt levels⟩] {α : Type} {p : Parser α}
    (hp : IsHandler p) : Keeps R p := by
  induction hp with
  | block => exact keeps_here fun inner _ => keeps_innerBlock inner
  | expression power => exact keeps_here fun inner _ => keeps_innerExpression inner power
  | statement | list | statementList | importPath | missingExpression | identifier | parameterList | sourceFile =>
      infer_instance
  | _ =>
      apply keeps_here
      intro inner _
      infer_instance

variable {α : Type} {p : Parser α} {s : State}

/-- Whether a handler gives a value or an error, it is back at the level of nesting and inside the brackets that it
began in, and was never past the limit; ahead are the tokens that it has not passed, each with its comment, and the
diagnostics there were come first. -/
theorem IsHandler.frames (hp : IsHandler p) (hdepth : s.depth ≤ nestingLimit) : s.Frames (finalState p s) := by
  have hadvances : s.Advances (finalState p s) := hp.keeps.leads s
  have hdepths : (finalState p s).depth = s.depth :=
    (hp.keeps (R := fun s s' => s'.depth = s.depth)).leads s
  have hwithin : s.StaysWithin (finalState p s) := hp.keeps.leads s
  obtain ⟨passed, hrest, hend⟩ := hadvances.passes
  have hslots : s.slots = passed ++ (finalState p s).slots := by
    rw [State.slots, State.slots, hrest, hadvances.endOfFile, hadvances.commentAtEnd, List.append_assoc]
  have hconsumed : (finalState p s).consumed = s.consumed + passed.length := by
    have hsum := hadvances.consumed
    rw [hrest, List.length_append] at hsum
    omega
  exact ⟨hdepths, hadvances.delimiters, (hwithin hdepth).2, ⟨passed, hslots, hconsumed, hend⟩, hadvances.start,
    hadvances.options, List.reverse_prefix.mpr hadvances.reports⟩

/-- A statement in a block ends in an error inside two lists, where the next level would be past the limit. -/
theorem frames_of_nested_lists :
    let s := { State.ofSource "f([1])" {} with depth := 254, delimiters := [⟨.rightBrace, false⟩] }
    IsHandler statement ∧ s.depth ≤ nestingLimit ∧ s.Frames (finalState statement s) ∧
      (finalState statement s).deepest = nestingLimit ∧ (finalState statement s).consumed = 3 := by
  intro s
  have hdepth : s.depth ≤ nestingLimit := by decide
  refine ⟨.statement, hdepth, IsHandler.statement.frames hdepth, ?_, ?_⟩
  all_goals decide +kernel

end Parser

end ScriptSyntax
