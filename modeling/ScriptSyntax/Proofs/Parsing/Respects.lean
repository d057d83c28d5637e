import ScriptSyntax.Proofs.Parsing.Pairing

/-!
Steps that do the same in two runs over corresponding tokens.  `Pairing.Respects` relates a step of the one
run to a step of the other: from states that are alike they give values that correspond, or fail with errors
that correspond, and leave states that are alike.
-/

namespace ScriptSyntax

/-- Values that two runs can be compared by. -/
class Paired (α : Type) where
  /-- The values of two runs correspond. -/
  paired : Pairing → α → α → Prop

export Paired (paired)

instance : Paired Unit := ⟨fun _ _ _ => True⟩

instance : Paired Bool := ⟨fun _ => Eq⟩

instance : Paired (Option (BindingPower × OperatorForm)) := ⟨fun _ => Eq⟩

instance : Paired Span := ⟨Pairing.Spans⟩

instance : Paired Token := ⟨Pairing.Tokens⟩

instance : Paired Node := ⟨Pairing.Nodes⟩

instance : Paired SyntaxError := ⟨Pairing.Errors⟩

instance : Paired (List Node) := ⟨fun pairing => List.Forall₂ pairing.Nodes⟩

instance : Paired (Option Node) := ⟨fun pairing => Option.Rel pairing.Nodes⟩

instance {α β : Type} [Paired α] [Paired β] : Paired (α × β) where
  paired pairing pair pair' := paired pairing pair.1 pair'.1 ∧ paired pairing pair.2 pair'.2

instance {α : Type} [Paired α] : Paired (Except SyntaxError α) where
  paired pairing outcome outcome' :=
    match outcome, outcome' with
    | .ok value, .ok value' => paired pairing value value'
    | .error e, .error e' => pairing.Errors e e'
    | _, _ => False

namespace Pairing

variable {pairing : Pairing} {α β : Type} [Paired α] [Paired β]

inductive Agrees (pairing : Pairing) : EStateM.Result SyntaxError State α →
    EStateM.Result SyntaxError State α → Prop where
  | ok {value value' : α} {s t : State} (hvalue : paired pairing value value')
      (hstates : pairing.Alike s t) : Agrees pairing (.ok value s) (.ok value' t)
  | error {e e' : SyntaxError} {s t : State} (herror : pairing.Errors e e')
      (hstates : pairing.Alike s t) : Agrees pairing (.error e s) (.error e' t)

/-- The steps do the same in two runs that are alike. -/
def Respects (pairing : Pairing) (p q : Parser α) : Prop :=
  ∀ s t, pairing.Alike s t → pairing.Agrees (p s) (q t)

theorem Agrees.bind {p q : Parser α} {f g : α → Parser β} {s t : State}
    (h : pairing.Agrees (p s) (q t))
    (hfollow : ∀ value value', paired pairing value value' →
      pairing.Respects (f value) (g value')) :
    pairing.Agrees ((p >>= f) s) ((q >>= g) t) := by
  rw [Parser.run_bind, Parser.run_bind]
  generalize p s = first at h
  generalize q t = second at h
  cases h with
  | ok hvalue hstates => exact hfollow _ _ hvalue _ _ hstates
  | error herror hstates => exact .error herror hstates

namespace Respects

variable {p q : Parser α}

theorem bind {f g : α → Parser β} (hp : pairing.Respects p q)
    (hf : ∀ value value', paired pairing value value' → pairing.Respects (f value) (g value')) :
    pairing.Respects (p >>= f) (q >>= g) :=
  fun s t h => (hp s t h).bind hf

theorem pure {value value' : α} (h : paired pairing value value') :
    pairing.Respects (pure value : Parser α) (pure value') :=
  fun _ _ hstates => .ok h hstates

theorem throw {e e' : SyntaxError} (h : pairing.Errors e e') :
    pairing.Respects (throw e : Parser α) (throw e') :=
  fun _ _ hstates => .error h hstates

theorem get {f g : State → Parser α}
    (hf : ∀ s t, pairing.Alike s t → pairing.Agrees (f s s) (g t t)) :
    pairing.Respects (get >>= f) (get >>= g) :=
  fun s t h => hf s t h

theorem failWith {error : State → SyntaxError}
    (herror : ∀ s t, pairing.Alike s t → pairing.Errors (error s) (error t)) :
    pairing.Respects (Parser.failWith error : Parser α) (Parser.failWith error) :=
  fun s t h => .error (herror s t h) h

theorem unexpected (expected : String) :
    pairing.Respects (Parser.failWith (·.unexpected expected) : Parser α)
      (Parser.failWith (·.unexpected expected)) :=
  failWith fun _ _ h => h.unexpected expected

theorem missingSeparator :
    pairing.Respects (Parser.failWith (·.missingSeparator) : Parser α)
      (Parser.failWith (·.missingSeparator)) :=
  failWith fun _ _ h => h.missingSeparator

theorem nestingTooDeep :
    pairing.Respects (Parser.failWith (·.nestingTooDeep) : Parser α)
      (Parser.failWith (·.nestingTooDeep)) :=
  failWith fun _ _ h => h.nestingTooDeep

theorem advance : pairing.Respects Parser.advance Parser.advance :=
  fun _ _ h => .ok h.current h.advanced

theorem expect (kind : TokenKind) : pairing.Respects (Parser.expect kind) (Parser.expect kind) := by
  apply get
  intro s t h
  rw [h.kind]
  split
  · exact advance s t h
  · exact unexpected _ s t h

theorem skipNewlines : pairing.Respects Parser.skipNewlines Parser.skipNewlines := by
  intro s t h
  rw [Parser.run_skipNewlines, Parser.run_skipNewlines]
  exact .ok trivial h.pastNewlines

theorem skipSeparators : pairing.Respects Parser.skipSeparators Parser.skipSeparators := by
  intro s t h
  rw [Parser.run_skipSeparators, Parser.run_skipSeparators]
  exact .ok trivial h.pastSeparators

theorem report {e e' : SyntaxError} (h : pairing.Errors e e') :
    pairing.Respects (Parser.report e) (Parser.report e') :=
  fun _ _ hstates => .ok trivial (hstates.reported_error h)

theorem log (event event' : Event) : pairing.Respects (Parser.log event) (Parser.log event') :=
  fun _ _ hstates => .ok trivial (hstates.logged event event')

theorem enterNesting : pairing.Respects Parser.enterNesting Parser.enterNesting := by
  intro s t h
  rw [Parser.run_enterNesting, Parser.run_enterNesting, h.depth]
  split
  · exact .error h.nestingTooDeep h
  · exact .ok trivial h.entered

theorem attempt (hp : pairing.Respects p q) :
    pairing.Respects (Parser.attempt p) (Parser.attempt q) := by
  intro s t h
  have hrun := hp s t h
  rw [Parser.run_attempt, Parser.run_attempt]
  generalize p s = first at hrun
  generalize q t = second at hrun
  cases hrun with
  | ok hvalue hstates => exact .ok hvalue hstates
  | error herror hstates => exact .ok herror hstates

theorem nested (hp : pairing.Respects p q) :
    pairing.Respects (Parser.nested p) (Parser.nested q) := by
  intro s t h
  have hrun := hp s t h
  rw [Parser.run_nested, Parser.run_nested, h.depth]
  generalize p s = first at hrun
  generalize q t = second at hrun
  cases hrun with
  | ok hvalue hstates => exact .ok hvalue (hstates.leaving _)
  | error herror hstates => exact .error herror (hstates.leaving _)

theorem delimited (closer : TokenKind) (expressionList : Bool) (hp : pairing.Respects p q) :
    pairing.Respects (Parser.delimited closer expressionList p)
      (Parser.delimited closer expressionList q) := by
  intro s t h
  have hrun := hp _ _ (h.opened closer expressionList)
  rw [Parser.run_delimited, Parser.run_delimited]
  generalize p (s.opened closer expressionList) = first at hrun
  generalize q (t.opened closer expressionList) = second at hrun
  cases hrun with
  | ok hvalue hstates => exact .ok hvalue hstates.closed
  | error herror hstates => exact .error herror hstates.closed

theorem recover {mark mark' : Mark} (hmark : pairing.Marks mark mark') (inBlock : Bool) :
    pairing.Respects (Parser.recover mark inBlock) (Parser.recover mark' inBlock) := by
  intro s t h
  have hstates := h.recovered hmark inBlock
  rw [Parser.run_recover, Parser.run_recover]
  exact .ok (.node (hstates.spanSince hmark) .nil) hstates

end Respects

end Pairing

end ScriptSyntax
