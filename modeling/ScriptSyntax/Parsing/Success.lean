import ScriptSyntax.Parsing.Nesting

/-!
The steps that cannot fail.  A list of statements turns the failure of a statement into a node of the
list, so the reader of a whole source gives a tree in every state: `succeeds_sourceFile`.
-/

namespace ScriptSyntax.Parser

/-- A step that gives a value in every state. -/
def Succeeds {α : Type} (p : Parser α) : Prop :=
  ∀ s, ∃ value s', p s = .ok value s'

theorem succeeds_pure {α : Type} (value : α) : Succeeds (pure value) :=
  fun s => ⟨value, s, rfl⟩

theorem succeeds_get : Succeeds (get : Parser State) :=
  fun s => ⟨s, s, rfl⟩

theorem succeeds_modify (f : State → State) : Succeeds (modify f) :=
  fun s => ⟨(), f s, rfl⟩

theorem succeeds_advance : Succeeds advance :=
  fun s => ⟨s.current, s.advanced, rfl⟩

theorem succeeds_bind {α β : Type} {p : Parser α} {f : α → Parser β} (hp : Succeeds p)
    (hf : ∀ value, Succeeds (f value)) : Succeeds (p >>= f) := by
  intro s
  obtain ⟨value, middle, hfirst⟩ := hp s
  obtain ⟨result, last, hsecond⟩ := hf value middle
  refine ⟨result, last, ?_⟩
  change EStateM.bind p f s = _
  simp [EStateM.bind, hfirst, hsecond]

theorem succeeds_ite {α : Type} {c : Prop} [Decidable c] {p q : Parser α} (hp : Succeeds p)
    (hq : Succeeds q) : Succeeds (if c then p else q) := by
  split
  · exact hp
  · exact hq

theorem succeeds_attempt {α : Type} (p : Parser α) : Succeeds (attempt p) := by
  intro s
  unfold attempt
  split
  · exact ⟨_, _, rfl⟩
  · exact ⟨_, _, rfl⟩

theorem succeeds_skipWhile (p : TokenKind → Bool) (slots : List Slot) :
    Succeeds (skipWhile p slots) := by
  induction slots with
  | nil => exact succeeds_pure ()
  | cons slot slots ih =>
      exact succeeds_ite (succeeds_bind succeeds_advance fun _ => ih) (succeeds_pure ())

theorem succeeds_skipSeparators : Succeeds skipSeparators :=
  succeeds_bind succeeds_get fun _ => succeeds_skipWhile _ _

theorem succeeds_skipToRecoveryPoint (inBlock : Bool) (owed : List TokenKind) (slots : List Slot) :
    Succeeds (skipToRecoveryPoint inBlock owed slots) := by
  induction slots generalizing owed with
  | nil => exact succeeds_pure ()
  | cons slot slots ih =>
      exact succeeds_ite (succeeds_bind succeeds_advance fun _ => ih _) (succeeds_pure ())

theorem succeeds_recover (mark : Mark) (inBlock : Bool) : Succeeds (recover mark inBlock) :=
  succeeds_bind succeeds_get fun _ =>
    succeeds_bind (succeeds_skipToRecoveryPoint _ _ _) fun _ =>
      succeeds_bind succeeds_get fun _ =>
        succeeds_bind (succeeds_modify _) fun _ => succeeds_pure _

theorem succeeds_requireSeparator (inBlock : Bool) : Succeeds (requireSeparator inBlock) :=
  succeeds_bind succeeds_get fun _ =>
    succeeds_ite (succeeds_bind succeeds_skipSeparators fun _ => succeeds_pure _) <|
      succeeds_ite (succeeds_pure _) <|
        succeeds_bind (succeeds_modify _) fun _ =>
          succeeds_bind (succeeds_recover _ _) fun _ => succeeds_pure _

theorem succeeds_statementOrError (statement : Parser Node) (inBlock : Bool) :
    Succeeds (statementOrError statement inBlock) := by
  refine succeeds_bind succeeds_get fun _ => succeeds_bind (succeeds_attempt _) fun outcome => ?_
  cases outcome with
  | ok node => exact succeeds_bind (succeeds_requireSeparator _) fun _ => succeeds_pure _
  | error e =>
      exact succeeds_bind (succeeds_modify _) fun _ =>
        succeeds_bind (succeeds_recover _ _) fun _ => succeeds_pure _

theorem succeeds_statementsWithin (statement : Parser Node) (inBlock : Bool) (body : List Node)
    (budget : List Slot) : Succeeds (statementsWithin statement inBlock body budget) := by
  induction budget generalizing body with
  | nil => exact succeeds_pure _
  | cons slot budget ih =>
      exact succeeds_bind succeeds_skipSeparators fun _ =>
        succeeds_bind succeeds_get fun _ =>
          succeeds_ite (succeeds_pure _) <|
            succeeds_bind (succeeds_statementOrError _ _) fun _ => ih _

theorem succeeds_statementList (statement : Parser Node) (inBlock : Bool) :
    Succeeds (statementList statement inBlock) :=
  succeeds_bind succeeds_get fun _ => succeeds_statementsWithin _ _ _ _

theorem succeeds_sourceFile : Succeeds sourceFile :=
  succeeds_bind (succeeds_statementList _ _) fun _ =>
    succeeds_bind succeeds_get fun _ => succeeds_pure _

end ScriptSyntax.Parser
