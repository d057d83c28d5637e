import ScriptSyntax.Proofs.Parsing.Alike

/-!
Steps that cannot see past a cut.  `Cut.Local` steps do the same in two runs that are alike, unless the
first one goes on behind the cut: they give the same value or fail with the same error, and the runs stay
alike.
-/

namespace ScriptSyntax

/-- Values that stand somewhere in a source. -/
class Located (α : Type) where
  /-- The value begins at a place with the property. -/
  located : (Position → Prop) → α → Prop

export Located (located)

instance : Located Unit := ⟨fun _ _ => True⟩

instance : Located Bool := ⟨fun _ _ => True⟩

instance : Located (List Node) := ⟨fun _ _ => True⟩

instance : Located (Option Node) := ⟨fun _ _ => True⟩

instance : Located (Option (BindingPower × OperatorForm)) := ⟨fun _ _ => True⟩

instance : Located Span := ⟨fun holds span => holds span.start⟩

instance : Located Token := ⟨fun holds token => holds token.span.start⟩

instance : Located Node := ⟨fun holds n => holds n.span.start⟩

instance : Located SyntaxError := ⟨fun holds e => holds e.span.start⟩

instance {α β : Type} [Located α] [Located β] : Located (α × β) :=
  ⟨fun holds pair => located holds pair.1 ∧ located holds pair.2⟩

instance {α : Type} [Located α] : Located (Except SyntaxError α) where
  located holds outcome :=
    match outcome with
    | .ok value => located holds value
    | .error e => located holds e

namespace Cut

variable {cut : Cut} {α β : Type} [Located α] [Located β]

/-- The outcomes of a step in two runs are the same, unless the first run is behind the cut. -/
inductive Agrees (cut : Cut) : EStateM.Result SyntaxError State α →
    EStateM.Result SyntaxError State α → Prop where
  | ok {value : α} {s t : State} (hvalue : located cut.holds value) (hstates : cut.Alike s t) :
      Agrees cut (.ok value s) (.ok value t)
  | error {e : SyntaxError} {s t : State} (hplace : cut.holds e.span.start)
      (hstates : cut.Alike s t) : Agrees cut (.error e s) (.error e t)
  | okBeyond {value : α} {s : State} {outcome : EStateM.Result SyntaxError State α}
      (hbeyond : cut.Beyond s) : Agrees cut (.ok value s) outcome
  | errorBeyond {e : SyntaxError} {s : State} {outcome : EStateM.Result SyntaxError State α}
      (hbeyond : cut.Beyond s) : Agrees cut (.error e s) outcome

/-- The step does the same in two runs that are alike. -/
def Local (cut : Cut) (p : Parser α) : Prop :=
  ∀ s t, cut.Alike s t → cut.Agrees (p s) (p t)

theorem Beyond.agrees {s : State} (h : cut.Beyond s) (p : Parser α) [hp : Parser.Forward p]
    (outcome : EStateM.Result SyntaxError State α) : cut.Agrees (p s) outcome := by
  cases hrun : p s with
  | ok value s' => exact .okBeyond (h.advances (hp.advances_of_ok p hrun))
  | error e s' => exact .errorBeyond (h.advances (hp.advances_of_error p hrun))

theorem Agrees.bind {p q : Parser α} {f g : α → Parser β} [hf : ∀ value, Parser.Forward (f value)]
    {s t : State} (h : cut.Agrees (p s) (q t))
    (hfollow : ∀ value s' t', p s = .ok value s' → q t = .ok value t' → located cut.holds value →
      cut.Alike s' t' → cut.Agrees (f value s') (g value t')) :
    cut.Agrees ((p >>= f) s) ((q >>= g) t) := by
  rw [Parser.run_bind, Parser.run_bind]
  generalize hfirst : p s = first at h
  generalize hsecond : q t = second at h
  cases h with
  | ok hvalue hstates => exact hfollow _ _ _ hfirst hsecond hvalue hstates
  | error hplace hstates => exact .error hplace hstates
  | okBeyond hbeyond => exact hbeyond.agrees _ _
  | errorBeyond hbeyond => exact .errorBeyond hbeyond

/-! ### Primitive steps -/

namespace Local

variable {p : Parser α} {s t : State}

theorem bind {f : α → Parser β} [∀ value, Parser.Forward (f value)] (hp : cut.Local p)
    (hf : ∀ value, located cut.holds value → cut.Local (f value)) : cut.Local (p >>= f) :=
  fun s t h => (hp s t h).bind fun value s' t' _ _ hvalue h' => hf value hvalue s' t' h'

theorem pure {value : α} (h : located cut.holds value) : cut.Local (pure value : Parser α) :=
  fun _ _ hstates => .ok h hstates

theorem throw {e : SyntaxError} (h : cut.holds e.span.start) :
    cut.Local (throw e : Parser α) :=
  fun _ _ hstates => .error h hstates

theorem get {f : State → Parser α}
    (hf : ∀ s t, cut.Alike s t → cut.Agrees (f s s) (f t t)) : cut.Local (get >>= f) :=
  fun s t h => hf s t h

theorem ite (c : Prop) [Decidable c] {q : Parser α} (hp : cut.Local p) (hq : cut.Local q) :
    cut.Local (if c then p else q) := by
  split
  · exact hp
  · exact hq

theorem failWith {error : State → SyntaxError} (heq : ∀ s t, cut.Alike s t → error s = error t)
    (hplace : ∀ s, (error s).span = s.current.span) :
    cut.Local (Parser.failWith error : Parser α) := by
  intro s t h
  show cut.Agrees (.error (error s) s) (.error (error t) t)
  rw [← heq s t h]
  refine .error ?_ h
  rw [hplace]
  exact h.holds_current

theorem unexpected (expected : String) :
    cut.Local (Parser.failWith (·.unexpected expected) : Parser α) :=
  failWith (fun _ _ h => h.unexpected expected) fun _ => rfl

theorem missingSeparator : cut.Local (Parser.failWith (·.missingSeparator) : Parser α) :=
  failWith (fun _ _ h => h.missingSeparator) fun _ => rfl

theorem nestingTooDeep : cut.Local (Parser.failWith (·.nestingTooDeep) : Parser α) :=
  failWith (fun _ _ h => h.nestingTooDeep) fun _ => rfl

theorem advance : cut.Local Parser.advance := by
  intro s t h
  show cut.Agrees (.ok s.current s.advanced) (.ok t.current t.advanced)
  rcases h.advanced with hbeyond | hstates
  · exact .okBeyond hbeyond
  · rw [← h.current]
    exact .ok h.holds_current hstates

theorem expect (kind : TokenKind) : cut.Local (Parser.expect kind) := by
  refine get fun s t h => ?_
  rw [h.kind]
  split
  · exact advance s t h
  · exact unexpected _ s t h

theorem skipNewlines : cut.Local Parser.skipNewlines := by
  intro s t h
  rw [Parser.run_skipNewlines, Parser.run_skipNewlines]
  rcases h.pastNewlines with hbeyond | hstates
  · exact .okBeyond hbeyond
  · exact .ok trivial hstates

theorem skipSeparators : cut.Local Parser.skipSeparators := by
  intro s t h
  rw [Parser.run_skipSeparators, Parser.run_skipSeparators]
  rcases h.pastSeparators with hbeyond | hstates
  · exact .okBeyond hbeyond
  · exact .ok trivial hstates

theorem reportDiagnostic {d : Diagnostic} (h : cut.holds d.span.start) :
    cut.Local (Parser.reportDiagnostic d) :=
  fun _ _ hstates => .ok trivial (hstates.reported h)

theorem report {e : SyntaxError} (h : cut.holds e.span.start) : cut.Local (Parser.report e) :=
  reportDiagnostic h

theorem attempt (hp : cut.Local p) : cut.Local (Parser.attempt p) := by
  intro s t h
  rw [Parser.run_attempt, Parser.run_attempt]
  have hrun := hp s t h
  generalize p s = first at hrun
  generalize p t = second at hrun
  cases hrun with
  | ok hvalue hstates => exact .ok hvalue hstates
  | error hplace hstates => exact .ok hplace hstates
  | okBeyond hbeyond => exact .okBeyond hbeyond
  | errorBeyond hbeyond => exact .okBeyond hbeyond

theorem nested (hp : cut.Local p) : cut.Local (Parser.nested p) := by
  intro s t h
  rw [Parser.run_nested, Parser.run_nested, h.depth]
  have hrun := hp s t h
  generalize p s = first at hrun
  generalize p t = second at hrun
  cases hrun with
  | ok hvalue hstates => exact .ok hvalue (hstates.leaving _)
  | error hplace hstates => exact .error hplace (hstates.leaving _)
  | okBeyond hbeyond => exact .okBeyond hbeyond
  | errorBeyond hbeyond => exact .errorBeyond hbeyond

theorem delimited (closer : TokenKind) (expressionList : Bool) (hp : cut.Local p) :
    cut.Local (Parser.delimited closer expressionList p) := by
  intro s t h
  rw [Parser.run_delimited, Parser.run_delimited]
  have hrun := hp _ _ (h.opened closer expressionList)
  generalize p (s.opened closer expressionList) = first at hrun
  generalize p (t.opened closer expressionList) = second at hrun
  cases hrun with
  | ok hvalue hstates => exact .ok hvalue hstates.closed
  | error hplace hstates => exact .error hplace hstates.closed
  | okBeyond hbeyond => exact .okBeyond hbeyond
  | errorBeyond hbeyond => exact .errorBeyond hbeyond

/-- The loops of the grammar consume a token in each round, so it is enough that a loop agrees where the
rounds after the first one do. -/
theorem rounds {ι : Type} {loop : ι → Parser α}
    (hround : ∀ i s t, cut.Alike s t →
      (∀ j s' t', s'.rest.length < s.rest.length → cut.Alike s' t' →
        cut.Agrees (loop j s') (loop j t')) → cut.Agrees (loop i s) (loop i t)) (i : ι) :
    cut.Local (loop i) := by
  intro s t h
  induction hlength : s.rest.length using Nat.strongRecOn generalizing i s t with
  | ind length ih =>
      refine hround i s t h fun j s' t' hshorter hstates => ?_
      exact ih _ (hlength ▸ hshorter) j s' t' hstates rfl

theorem loop (hround : ∀ s t, cut.Alike s t →
    (∀ s' t', s'.rest.length < s.rest.length → cut.Alike s' t' → cut.Agrees (p s') (p t')) →
      cut.Agrees (p s) (p t)) : cut.Local p :=
  @rounds cut α _ Unit (fun _ => p) (fun _ s t h ih => hround s t h (ih ())) ()

end Local

/-! ### Behind the first token -/

/-- The step does the same in two runs that are alike, once the second one has consumed a token.  From there
on the runs know of the same last token. -/
def LocalLater (cut : Cut) (p : Parser α) : Prop :=
  ∀ s t, cut.Alike s t → 0 < t.consumed → cut.Agrees (p s) (p t)

theorem Local.later {p : Parser α} (h : cut.Local p) : cut.LocalLater p :=
  fun s t hstates _ => h s t hstates

namespace LocalLater

variable {p : Parser α}

theorem bind {f : α → Parser β} [Parser.Forward p] [∀ value, Parser.Forward (f value)]
    (hp : cut.LocalLater p) (hf : ∀ value, located cut.holds value → cut.LocalLater (f value)) :
    cut.LocalLater (p >>= f) := by
  intro s t h hlater
  refine (hp s t h hlater).bind fun value s' t' _ ht hvalue h' => hf value hvalue s' t' h' ?_
  exact Nat.lt_of_lt_of_le hlater (Parser.Forward.advances_of_ok p ht).consumed_le

theorem get {f : State → Parser α}
    (hf : ∀ s t, cut.Alike s t → 0 < t.consumed → cut.Agrees (f s s) (f t t)) :
    cut.LocalLater (get >>= f) :=
  fun s t h hlater => hf s t h hlater

end LocalLater

theorem Local.expect_bind {kind : TokenKind} (hkind : kind ≠ .endOfFile) {f : Token → Parser α}
    [∀ token, Parser.Forward (f token)]
    (hf : ∀ token, located cut.holds token → cut.LocalLater (f token)) :
    cut.Local (Parser.expect kind >>= f) := by
  intro s t h
  refine (Local.expect kind s t h).bind fun token s' t' _ ht htoken h' => hf token htoken s' t' h' ?_
  obtain ⟨hnext, -, rfl⟩ := Parser.expect_eq_ok.mp ht
  rw [State.consumed_advanced (by rw [hnext]; exact hkind)]
  exact Nat.succ_pos _

end Cut

end ScriptSyntax
