import ScriptSyntax.Proofs.Parsing.Local
import ScriptSyntax.Proofs.Parsing.Runs

/-!
The statements of a source in rounds.  A statement of a source that is no error stands behind the rounds
before it, `exists_rounds`, and two runs that are alike go through the same rounds, `Rounds.alike`.
-/

namespace ScriptSyntax

namespace State

theorem kind_pastBroken (s : State) (owed : List TokenKind) :
    (pastBroken false owed s.rest s).kind.isSeparator ∨
      (pastBroken false owed s.rest s).kind = .endOfFile := by
  generalize hslots : s.rest = slots
  induction slots generalizing s owed with
  | nil => exact .inr (kind_of_nil hslots)
  | cons slot slots ih =>
      unfold pastBroken
      split
      · rename_i hpoint
        left
        rw [kind_of_cons hslots]
        simp [Parser.isRecoveryPoint] at hpoint
        exact hpoint.2
      · exact ih s.advanced _ (rest_advanced hslots)

theorem kind_recovered (s : State) (mark : Mark) :
    (s.recovered mark false).kind.isSeparator ∨ Parser.atListEnd false (s.recovered mark false) := by
  rcases s.kind_pastBroken (Bracket.owed ((mark.slots.take (s.consumed - mark.index)).map (·.kind)))
    with hkind | hkind
  · exact .inl hkind
  · exact .inr (by simp [Parser.atListEnd, show (s.recovered mark false).kind = .endOfFile from hkind])

end State

namespace Parser

/-! ### Levels of nesting -/

instance steps_depth : Steps (fun s s' => s'.depth = s.depth) where
  refl _ := rfl
  trans h h' := h'.trans h
  advanced := State.depth_advanced
  reported s d _ := s.depth_reported d
  logged _ _ := rfl
  closed h := h
  leaving _ := rfl

theorem keeps_depth_nested {α : Type} (p : Parser α) :
    Keeps (fun s s' => s'.depth = s.depth) (nested p) where
  leads s := by
    unfold finalState
    rw [run_nested]
    cases p s with
    | ok value s' => rfl
    | error e s' => rfl

instance keeps_depth_inner (levels : Nat) :
    Inner.Keeps (fun s s' => s'.depth = s.depth) ⟨expressionAt levels, blockAt levels⟩ where
  expression power := by
    cases levels with
    | zero =>
        unfold expressionAt
        infer_instance
    | succ levels => exact keeps_depth_nested _
  block := by
    cases levels with
    | zero =>
        unfold blockAt
        infer_instance
    | succ levels => exact keeps_depth_nested _

/-! ### Rounds -/

/-- Rounds of the statements of a source.  The separators behind the last one are left. -/
inductive Rounds : List Node → State → State → Prop where
  | none {s : State} : Rounds [] s s
  | round {nodes more : List Node} {s s₁ s₂ : State}
      (hmore : atListEnd false s.pastSeparators = false)
      (hround : statementRound statement false s.pastSeparators = .ok nodes s₁)
      (hrest : Rounds more s₁ s₂) : Rounds (nodes ++ more) s s₂

namespace Rounds

variable {nodes : List Node} {s s' : State}

theorem leads {R : State → State → Prop} [Steps R] [Keeps R statement] (h : Rounds nodes s s') :
    R s s' := by
  induction h with
  | none => exact Steps.refl _
  | @round nodes more s s₁ s₂ hmore hround hrest ih =>
      have hbefore : R s s.pastSeparators := Steps.pastWhile _ _ _
      exact Steps.trans (Steps.trans hbefore (Keeps.of_ok _ hround)) ih

theorem advances (h : Rounds nodes s s') : s.Advances s' := h.leads

theorem depth (h : Rounds nodes s s') : s'.depth = s.depth :=
  h.leads (R := fun s s' => s'.depth = s.depth)

theorem statementList {more : List Node} {s₂ : State} (h : Rounds nodes s s')
    (hlist : Parser.statementList statement false s' = .ok more s₂) :
    Parser.statementList statement false s = .ok (nodes ++ more) s₂ := by
  induction h with
  | none => exact hlist
  | @round nodes rest s s₁ s' hmore hround hrest ih =>
      rw [statementList_eq]
      simp only [run_bind, run_skipSeparators, run_get, run_ite, hmore, Bool.false_eq_true, if_false,
        hround, ih hlist, run_pure, List.append_assoc]

theorem separated (h : Rounds nodes s s') :
    nodes = [] ∧ s' = s ∨ s'.kind.isSeparator ∨ atListEnd false s' := by
  induction h with
  | none => exact .inl ⟨rfl, rfl⟩
  | @round nodes rest s s₁ s₂ hmore hround hrest ih =>
      right
      rcases ih with ⟨-, rfl⟩ | hseparated
      · cases rounded_of_statementRound hround with
        | whole _ hseparated => exact hseparated
        | joined _ _ hrecovered =>
            rw [hrecovered]
            exact State.kind_recovered _ _
        | broken _ hrecovered =>
            rw [hrecovered]
            exact State.kind_recovered _ _
      · exact hseparated

/-- Two runs that are alike go through the same rounds, unless the first one goes on behind the cut. -/
theorem alike {cut : Cut} (h : Rounds nodes s s') {t : State} (hstates : cut.Alike s t)
    (hbefore : ¬cut.Beyond s') : ∃ t', Rounds nodes t t' ∧ cut.Alike s' t' := by
  induction h generalizing t with
  | none => exact ⟨t, .none, hstates⟩
  | @round nodes rest s s₁ s₂ hmore hround hrest ih =>
      have hnear : cut.Alike s.pastSeparators t.pastSeparators := by
        rcases hstates.pastSeparators with hbeyond | hnear
        · exact absurd ((hbeyond.advances (Forward.advances_of_ok _ hround)).advances hrest.advances)
            hbefore
        · exact hnear
      have hagrees := Cut.local_statementRound Cut.local_statement false _ _ hnear
      rw [hround] at hagrees
      generalize hsecond : statementRound statement false t.pastSeparators = second at hagrees
      cases hagrees with
      | ok _ hstates' =>
          obtain ⟨t', hrounds, hlast⟩ := ih hstates' hbefore
          exact ⟨t', .round (by rw [← hnear.atListEnd]; exact hmore) hsecond hrounds, hlast⟩
      | okBeyond hbeyond => exact absurd (hbeyond.advances hrest.advances) hbefore

end Rounds

theorem rounds_of_statementList {nodes : List Node} {s s' : State}
    (hlist : statementList statement false s = .ok nodes s') :
    ∃ s₁, Rounds nodes s s₁ ∧ s' = s₁.pastSeparators := by
  induction hlength : s.rest.length using Nat.strongRecOn generalizing s nodes with
  | ind length ih =>
      rw [statementList_eq] at hlist
      simp only [bind_eq_ok, skipSeparators_eq_ok, get_eq_ok, run_ite] at hlist
      obtain ⟨_, _, rfl, _, _, ⟨rfl, rfl⟩, hlist⟩ := hlist
      split at hlist
      · obtain ⟨rfl, rfl⟩ := pure_eq_ok.mp hlist
        exact ⟨s, .none, rfl⟩
      · rename_i hmore
        simp only [bind_eq_ok, pure_eq_ok] at hlist
        obtain ⟨first, middle, hround, more, last, hlist, rfl, rfl⟩ := hlist
        have hmore : atListEnd false s.pastSeparators = false := by simpa using hmore
        have hbefore := s.advances_pastSeparators.length_le
        have hshorter := length_lt_of_statementRound statement false s.isSeparator_pastSeparators hmore
          hround
        obtain ⟨s₁, hrounds, hlast⟩ := ih _ (by omega) hlist rfl
        exact ⟨s₁, .round hmore hround hrounds, hlast⟩

theorem exists_rounds {nodes : List Node} {s s' : State} {index : Nat} {node : Node}
    (hlist : statementList statement false s = .ok nodes s') (hnode : nodes[index]? = some node)
    (hwhole : node.isError = false) :
    ∃ s₁ s₂, Rounds (nodes.take index) s s₁ ∧ atListEnd false s₁.pastSeparators = false ∧
      statement s₁.pastSeparators = .ok node s₂ ∧
      statementList statement false s₁ = .ok (nodes.drop index) s' := by
  induction hlength : s.rest.length using Nat.strongRecOn generalizing s nodes index with
  | ind length ih =>
      have hwhole' := hlist
      rw [statementList_eq] at hlist
      simp only [bind_eq_ok, skipSeparators_eq_ok, get_eq_ok, run_ite] at hlist
      obtain ⟨_, _, rfl, _, _, ⟨rfl, rfl⟩, hlist⟩ := hlist
      split at hlist
      · obtain ⟨rfl, rfl⟩ := pure_eq_ok.mp hlist
        cases hnode
      · rename_i hmore
        simp only [bind_eq_ok, pure_eq_ok] at hlist
        obtain ⟨first, middle, hround, more, last, hlist, rfl, rfl⟩ := hlist
        have hmore : atListEnd false s.pastSeparators = false := by simpa using hmore
        have hbefore := s.advances_pastSeparators.length_le
        have hshorter := length_lt_of_statementRound statement false s.isSeparator_pastSeparators hmore
          hround
        -- a node behind the first round
        have hlater : ∀ later, index = first.length + later → more[later]? = some node →
            ∃ s₁ s₂, Rounds ((first ++ more).take index) s s₁ ∧
              atListEnd false s₁.pastSeparators = false ∧ statement s₁.pastSeparators = .ok node s₂ ∧
              statementList statement false s₁ = .ok ((first ++ more).drop index) last := by
          rintro later rfl hnode
          obtain ⟨s₁, s₂, hrounds, hend, hstatement, hrest⟩ := ih _ (by omega) hlist hnode rfl
          refine ⟨s₁, s₂, ?_, hend, hstatement, ?_⟩
          · rw [List.take_length_add_append]
            exact .round hmore hround hrounds
          · rw [List.drop_length_add_append]
            exact hrest
        cases rounded_of_statementRound hround with
        | whole hstatement =>
            cases index with
            | zero =>
                obtain rfl := Option.some.inj hnode
                exact ⟨s, middle, .none, hmore, hstatement, hwhole'⟩
            | succ index => exact hlater index (Nat.add_comm _ _) hnode
        | @joined _ s₁ _ hstatement =>
            match index, hnode with
            | 0, hnode =>
                obtain rfl := Option.some.inj hnode
                exact ⟨s, s₁, .none, hmore, hstatement, hwhole'⟩
            | 1, hnode =>
                obtain rfl := Option.some.inj hnode
                cases hwhole
            | index + 2, hnode => exact hlater index (Nat.add_comm _ _) hnode
        | broken hstatement =>
            cases index with
            | zero =>
                obtain rfl := Option.some.inj hnode
                cases hwhole
            | succ index => exact hlater index (Nat.add_comm _ _) hnode

end Parser

end ScriptSyntax
