import ScriptSyntax.Proofs.Parsing.Forward

/-!
Loops without a bound.  The loops of the grammar are bounded by the number of tokens that are left; a
round of each consumes a token, so the bound is never what ends one.  Each loop here is given by the
equation that unrolls its first round: `moreItems_eq`, `moreSegments_eq`, `moreMembers_eq`,
`moreClauses_eq` and `statementList_eq`.
-/

namespace ScriptSyntax

namespace State

theorem kind_pastWhile {p : TokenKind → Bool} (hend : p .endOfFile = false) (s : State) :
    p (pastWhile p s.rest s).kind = false := by
  generalize hslots : s.rest = slots
  induction slots generalizing s with
  | nil => rw [pastWhile, kind_of_nil hslots, hend]
  | cons slot slots ih =>
      unfold pastWhile
      split
      · exact ih s.advanced (by rw [rest_advanced hslots])
      · rename_i hkind
        rw [kind_of_cons hslots]
        simpa using hkind

theorem pastWhile_eq_self {p : TokenKind → Bool} {s : State} (hkind : p s.kind = false) :
    pastWhile p s.rest s = s := by
  cases hslots : s.rest with
  | nil => rfl
  | cons slot slots =>
      rw [kind_of_cons hslots] at hkind
      simp [pastWhile, hkind]

theorem pastWhile_eq_advanced {p : TokenKind → Bool} (hend : p .endOfFile = false) {s : State}
    (hkind : p s.kind) : pastWhile p s.rest s = pastWhile p s.advanced.rest s.advanced := by
  cases hslots : s.rest with
  | nil =>
      rw [kind_of_nil hslots, hend] at hkind
      cases hkind
  | cons slot slots =>
      rw [kind_of_cons hslots] at hkind
      rw [rest_advanced hslots, pastWhile, if_pos hkind]

theorem length_advanced_of_rest {s : State} (hrest : s.rest ≠ []) :
    s.advanced.rest.length < s.rest.length := by
  obtain ⟨slot, slots, hslots⟩ := List.exists_cons_of_ne_nil hrest
  simp [rest_advanced hslots, hslots]

theorem pastBroken_eq (inBlock : Bool) (owed : List TokenKind) (s : State) :
    pastBroken inBlock owed s.rest s =
      if s.rest = [] ∨ Parser.isRecoveryPoint inBlock owed s.kind then s
      else pastBroken inBlock (Bracket.next owed s.kind) s.advanced.rest s.advanced := by
  cases hslots : s.rest with
  | nil => rfl
  | cons slot slots =>
      rw [pastBroken, kind_of_cons hslots, rest_advanced hslots]
      simp

theorem advances_pastBroken (inBlock : Bool) (owed : List TokenKind) (s : State) :
    s.Advances (pastBroken inBlock owed s.rest s) :=
  Parser.Forward.advances_of_ok _ (Parser.run_skipToRecoveryPoint inBlock owed s.rest s)

theorem isSeparator_pastSeparators (s : State) : s.pastSeparators.kind.isSeparator = false :=
  kind_pastWhile rfl s

theorem pastSeparators_pastSeparators (s : State) :
    s.pastSeparators.pastSeparators = s.pastSeparators :=
  pastWhile_eq_self s.isSeparator_pastSeparators

theorem kind_pastNewlines (s : State) : s.pastNewlines.kind = s.kindPastNewlines := by
  unfold pastNewlines kindPastNewlines
  generalize hslots : s.rest = slots
  induction slots generalizing s with
  | nil => rw [pastWhile, kind_of_nil hslots, List.find?_nil]
  | cons slot slots ih =>
      by_cases hkind : slot.kind = .newline
      · simpa [pastWhile, hkind] using ih s.advanced (rest_advanced hslots)
      · simp [pastWhile, hkind, kind_of_cons hslots]

theorem spanSince_mark {s s' : State} (hadvances : s.Advances s') :
    s'.spanSince s.mark =
      if s.consumed < s'.consumed then s'.spanFrom s.current.span.start
      else Span.empty s.current.span.start := by
  simp only [State.spanSince, State.mark, State.current, State.slot]
  cases hrest : s.rest with
  | nil => simp [hadvances.endOfFile, Token.endOfFile, Span.empty]
  | cons slot slots => rfl

theorem advances_pastNewlines (s : State) : s.Advances s.pastNewlines :=
  s.advances_pastWhile _ _

theorem advances_pastSeparators (s : State) : s.Advances s.pastSeparators :=
  s.advances_pastWhile _ _

end State

namespace Parser

variable {α β : Type}

theorem bind_congr_of_forward (p : Parser α) [Forward p] {f g : α → Parser β} {s : State}
    (hfollow : ∀ value s', p s = .ok value s' → s.Advances s' → f value s' = g value s') :
    (p >>= f) s = (p >>= g) s := by
  rw [run_bind, run_bind]
  cases hrun : p s with
  | ok value s' => exact hfollow value s' hrun (Forward.advances_of_ok p hrun)
  | error e s' => rfl

theorem length_lt_of_expect {kind : TokenKind} (hkind : kind ≠ .endOfFile) {f : Token → Parser β}
    [hf : ∀ token, Forward (f token)] {s s' : State} {value : β}
    (hrun : (expect kind >>= f) s = .ok value s') : s'.rest.length < s.rest.length := by
  obtain ⟨token, middle, hexpect, hrest⟩ := bind_eq_ok.mp hrun
  obtain ⟨hs, rfl, rfl⟩ := expect_eq_ok.mp hexpect
  have hshorter := State.length_advanced (s := s) (by rw [hs]; exact hkind)
  have hlater := (Forward.advances_of_ok (f s.current) hrest).length_le
  omega

/-- The rounds of a loop.  `step` is one round followed by the rest of the loop, `base` what is left of
the loop when its bound is used up.  When a round consumes a token before the next one begins, and at the
end of the file `base` is a round, the number of tokens left is bound enough. -/
theorem eq_step_of_rounds {ι : Type} (base : ι → Parser α) (step : (ι → Parser α) → ι → Parser α)
    (within : ι → List Slot → Parser α) (hnil : ∀ i, within i [] = base i)
    (hcons : ∀ i slot budget, within i (slot :: budget) = step (within · budget) i)
    (hbase : ∀ i next {s : State}, s.rest = [] → base i s = step next i s)
    (hround : ∀ i {next next' : ι → Parser α} {s : State},
      (∀ j s', s'.rest.length < s.rest.length → next j s' = next' j s') →
        step next i s = step next' i s) (i : ι) :
    (get >>= fun s => within i s.rest) = step (fun i => get >>= fun s => within i s.rest) i := by
  have henough : ∀ {i budget budget'} {s : State}, s.rest.length ≤ budget.length →
      s.rest.length ≤ budget'.length → within i budget s = within i budget' s := by
    intro i budget
    induction budget generalizing i with
    | nil =>
        intro budget' s hbudget _
        have hrest : s.rest = [] := List.length_eq_zero_iff.mp (Nat.le_zero.mp hbudget)
        cases budget' with
        | nil => rfl
        | cons slot budget' => rw [hnil, hcons, hbase i _ hrest]
    | cons slot budget ih =>
        intro budget' s hbudget hbudget'
        cases budget' with
        | nil =>
            have hrest : s.rest = [] := List.length_eq_zero_iff.mp (Nat.le_zero.mp hbudget')
            rw [hnil, hcons, hbase i _ hrest]
        | cons slot' budget' =>
            rw [hcons, hcons]
            refine hround i fun j s' hshorter => ?_
            simp only [List.length_cons] at hbudget hbudget'
            exact ih (by omega) (by omega)
  funext s
  rw [run_bind, run_get]
  simp only
  cases hrest : s.rest with
  | nil => rw [hnil, hbase i _ hrest]
  | cons slot budget =>
      rw [hcons]
      refine hround i fun j s' hshorter => ?_
      rw [run_bind, run_get]
      simp only [hrest, List.length_cons] at hshorter
      exact henough (by omega) (Nat.le_refl _)

/-! ### Items of a list -/

/-- Reads further items, each after a comma. -/
def moreItems (item : Parser Node) : Parser (List Node) := do
  itemsWithin item [] (← get).rest

instance forward_moreItems (item : Parser Node) [Forward item] : Forward (moreItems item) := by
  unfold moreItems
  infer_instance

theorem itemsWithin_eq_map (item : Parser Node) (items : List Node) (budget : List Slot) :
    itemsWithin item items budget = (items.reverse ++ ·) <$> itemsWithin item [] budget := by
  induction budget generalizing items with
  | nil => simp [itemsWithin]
  | cons slot budget ih =>
      unfold itemsWithin
      rw [map_bind]
      refine bind_congr fun s => ?_
      split
      · simp only [map_bind]
        refine bind_congr fun _ => bind_congr fun _ => bind_congr fun next => bind_congr fun _ => ?_
        rw [ih (next :: items), ih [next]]
        simp [Functor.map_map]
      · simp

theorem moreItems_eq (item : Parser Node) [Forward item] :
    moreItems item = do
      if (← get).kind = .comma then
        let _ ← advance
        skipNewlines
        let next ← item
        skipNewlines
        let more ← moreItems item
        return next :: more
      else
        return [] := by
  refine eq_step_of_rounds (fun _ : Unit => pure [])
    (fun next _ => do
      if (← get).kind = .comma then
        let _ ← advance
        skipNewlines
        let first ← item
        skipNewlines
        let more ← next ()
        return first :: more
      else
        return [])
    (fun _ budget => itemsWithin item [] budget) ?_ ?_ ?_ ?_ ()
  · exact fun _ => rfl
  · intro _ slot budget
    simp only [itemsWithin]
    refine bind_congr fun s => ?_
    split
    · refine bind_congr fun _ => bind_congr fun _ => bind_congr fun next => bind_congr fun _ => ?_
      rw [itemsWithin_eq_map, map_eq_pure_bind]
      rfl
    · rfl
  · intro _ next s hrest
    simp [run_bind, State.kind_of_nil hrest]
  · intro _ next next' s hnext
    simp only [run_bind (get : Parser State), run_get]
    split
    · rename_i hkind
      have hshorter := State.length_advanced (s := s) (by simp [hkind])
      simp only [run_bind advance, run_advance]
      refine bind_congr_of_forward _ fun _ s₂ _ h₂ => ?_
      refine bind_congr_of_forward _ fun first s₃ _ h₃ => ?_
      refine bind_congr_of_forward _ fun _ s₄ _ h₄ => ?_
      have := h₂.length_le
      have := h₃.length_le
      have := h₄.length_le
      rw [run_bind, run_bind, hnext () s₄ (by omega)]
    · rfl

/-! ### Segments of a path -/

def moreSegments : Parser (List Node) := do
  segmentsWithin [] (← get).rest

instance forward_moreSegments : Forward moreSegments := by
  unfold moreSegments
  infer_instance

theorem segmentsWithin_eq_map (segments : List Node) (budget : List Slot) :
    segmentsWithin segments budget = (segments.reverse ++ ·) <$> segmentsWithin [] budget := by
  induction budget generalizing segments with
  | nil => simp [segmentsWithin]
  | cons slot budget ih =>
      unfold segmentsWithin
      rw [map_bind]
      refine bind_congr fun s => ?_
      split
      · simp only [map_bind]
        refine bind_congr fun _ => bind_congr fun next => ?_
        rw [ih (next :: segments), ih [next]]
        simp [Functor.map_map]
      · simp

theorem moreSegments_eq :
    moreSegments = do
      if (← get).kind = .dot then
        let _ ← advance
        let next ← identifier
        let more ← moreSegments
        return next :: more
      else
        return [] := by
  refine eq_step_of_rounds (fun _ : Unit => pure [])
    (fun next _ => do
      if (← get).kind = .dot then
        let _ ← advance
        let first ← identifier
        let more ← next ()
        return first :: more
      else
        return [])
    (fun _ budget => segmentsWithin [] budget) ?_ ?_ ?_ ?_ ()
  · exact fun _ => rfl
  · intro _ slot budget
    simp only [segmentsWithin]
    refine bind_congr fun s => ?_
    split
    · refine bind_congr fun _ => bind_congr fun next => ?_
      rw [segmentsWithin_eq_map, map_eq_pure_bind]
      rfl
    · rfl
  · intro _ next s hrest
    simp [run_bind, State.kind_of_nil hrest]
  · intro _ next next' s hnext
    simp only [run_bind (get : Parser State), run_get]
    split
    · rename_i hkind
      have hshorter := State.length_advanced (s := s) (by simp [hkind])
      simp only [run_bind advance, run_advance]
      refine bind_congr_of_forward _ fun first s₂ _ h₂ => ?_
      have := h₂.length_le
      rw [run_bind, run_bind, hnext () s₂ (by omega)]
    · rfl

/-! ### Members of a structure -/

section
variable (inner : Inner) [Inner.Forward inner]

def moreMembers (inner : Inner) (opener : Span) (seenMethod : Bool) : Parser (List Node) := do
  structMembersWithin inner opener seenMethod [] (← get).rest

instance forward_moreMembers (opener : Span) (seenMethod : Bool) :
    Forward (moreMembers inner opener seenMethod) := by
  unfold moreMembers
  infer_instance

theorem length_lt_of_functionDecl {s s' : State} {node : Node}
    (hrun : functionDecl inner s = .ok node s') : s'.rest.length < s.rest.length := by
  rw [functionDecl_eq] at hrun
  obtain ⟨_, _, hget, hrun⟩ := bind_eq_ok.mp hrun
  cases hget
  obtain ⟨before, middle, hasync, hrun⟩ := bind_eq_ok.mp hrun
  have hbefore := (Forward.advances_of_ok asyncWord hasync).length_le
  have hshorter := length_lt_of_expect (by simp) hrun
  omega

theorem length_lt_of_structField {s s' : State} {node : Node}
    (hrun : structField inner s = .ok node s') : s'.rest.length < s.rest.length := by
  unfold structField identifier at hrun
  rw [bind_assoc] at hrun
  exact length_lt_of_expect (by simp) hrun

omit [Inner.Forward inner] in
theorem structMember_eq (seenMethod : Bool) :
    structMember inner seenMethod = (do
      let s ← get
      if s.kind = .keyword .fnKw ∨ s.kind = .keyword .asyncKw then
        let node ← functionDecl inner
        return (node, true)
      else if s.kind = .identifier then
        let field ← structField inner
        let node ← checkedField seenMethod field
        return (node, false)
      else
        failWith fun s => s.unexpected "a struct field or method") := by
  unfold structMember
  refine bind_congr fun s => ?_
  split
  · rename_i hkind
    rw [if_pos (.inl hkind)]
  · rename_i hkind
    rw [if_pos (.inr hkind)]
  · rename_i hkind
    rw [if_neg (by simp [hkind]), if_pos hkind]
  · rename_i hfn hasync hidentifier
    have hword : ¬(s.kind = .keyword .fnKw ∨ s.kind = .keyword .asyncKw) := by
      rintro (h | h)
      · exact hfn h
      · exact hasync h
    rw [if_neg hword, if_neg hidentifier]

theorem length_lt_of_structMember {seenMethod : Bool} {s s' : State} {member : Node × Bool}
    (hrun : structMember inner seenMethod s = .ok member s') :
    s'.rest.length < s.rest.length := by
  rw [structMember_eq] at hrun
  obtain ⟨_, _, hget, hrun⟩ := bind_eq_ok.mp hrun
  cases hget
  rw [run_ite, run_ite] at hrun
  split at hrun
  · obtain ⟨node, middle, hdecl, hrest⟩ := bind_eq_ok.mp hrun
    cases hrest
    exact length_lt_of_functionDecl inner hdecl
  · split at hrun
    · obtain ⟨field, middle, hfield, hrest⟩ := bind_eq_ok.mp hrun
      have hshorter := length_lt_of_structField inner hfield
      obtain ⟨node, last, hchecked, hrest⟩ := bind_eq_ok.mp hrest
      cases hrest
      have hlater := (Forward.advances_of_ok (checkedField seenMethod field) hchecked).length_le
      omega
    · cases hrun

omit [Inner.Forward inner] in
theorem structMembersWithin_cons (opener : Span) (seenMethod : Bool) (members : List Node)
    (slot : Slot) (budget : List Slot) :
    structMembersWithin inner opener seenMethod members (slot :: budget) = (do
      skipSeparators
      let s ← get
      if s.kind = .rightBrace then
        return members.reverse
      else if s.kind = .endOfFile then
        throw ⟨.unterminatedBlock opener.start.line, opener⟩
      else
        let (node, isMethod) ← structMember inner seenMethod
        if (← get).atStatementEnd then
          structMembersWithin inner opener (seenMethod || isMethod) (node :: members) budget
        else
          failWith (·.missingSeparator)) := by
  simp only [structMembersWithin]
  refine bind_congr fun _ => bind_congr fun s => ?_
  split
  · rename_i hkind
    rw [if_pos hkind]
  · rename_i hkind
    rw [if_neg (by simp [hkind]), if_pos hkind]
  · rename_i hbrace hend
    rw [if_neg hbrace, if_neg hend]

omit [Inner.Forward inner] in
theorem structMembersWithin_eq_map (opener : Span) (seenMethod : Bool) (members : List Node)
    (budget : List Slot) :
    structMembersWithin inner opener seenMethod members budget =
      (members.reverse ++ ·) <$> structMembersWithin inner opener seenMethod [] budget := by
  induction budget generalizing seenMethod members with
  | nil => rfl
  | cons slot budget ih =>
      simp only [structMembersWithin_cons, map_bind]
      refine bind_congr fun _ => bind_congr fun s => ?_
      split
      · simp
      · split
        · rfl
        · simp only [map_bind]
          refine bind_congr fun member => bind_congr fun s' => ?_
          split
          · rw [ih _ (member.1 :: members), ih _ [member.1]]
            simp [Functor.map_map]
          · rfl

theorem moreMembers_eq (opener : Span) (seenMethod : Bool) :
    moreMembers inner opener seenMethod = (do
      skipSeparators
      let s ← get
      if s.kind = .rightBrace then
        return []
      else if s.kind = .endOfFile then
        throw ⟨.unterminatedBlock opener.start.line, opener⟩
      else
        let (node, isMethod) ← structMember inner seenMethod
        if (← get).atStatementEnd then
          let more ← moreMembers inner opener (seenMethod || isMethod)
          return node :: more
        else
          failWith (·.missingSeparator)) := by
  refine eq_step_of_rounds
    (fun _ : Bool => throw ⟨.unterminatedBlock opener.start.line, opener⟩)
    (fun next seenMethod => do
      skipSeparators
      let s ← get
      if s.kind = .rightBrace then
        return []
      else if s.kind = .endOfFile then
        throw ⟨.unterminatedBlock opener.start.line, opener⟩
      else
        let (node, isMethod) ← structMember inner seenMethod
        if (← get).atStatementEnd then
          let more ← next (seenMethod || isMethod)
          return node :: more
        else
          failWith (·.missingSeparator))
    (fun seenMethod budget => structMembersWithin inner opener seenMethod [] budget)
    ?_ ?_ ?_ ?_ seenMethod
  · exact fun _ => rfl
  · intro seenMethod slot budget
    rw [structMembersWithin_cons]
    refine bind_congr fun _ => bind_congr fun s => ?_
    split
    · rfl
    · split
      · rfl
      · refine bind_congr fun member => bind_congr fun s' => ?_
        split
        · rw [structMembersWithin_eq_map, map_eq_pure_bind]
          rfl
        · rfl
  · intro seenMethod next s hrest
    have hskip : s.pastSeparators = s := by
      rw [State.pastSeparators, hrest]
      rfl
    simp only [run_bind skipSeparators, run_skipSeparators, hskip]
    simp [run_bind, State.kind_of_nil hrest]
  · intro seenMethod next next' s hnext
    refine bind_congr_of_forward _ fun _ s₁ _ h₁ => ?_
    simp only [run_bind (get : Parser State), run_get, run_ite]
    split
    · rfl
    · split
      · rfl
      · refine bind_congr_of_forward _ fun member s₂ hmember _ => ?_
        have := length_lt_of_structMember inner hmember
        have := h₁.length_le
        simp only [run_bind (get : Parser State), run_get, run_ite]
        split
        · rw [run_bind, run_bind, hnext _ s₂ (by omega)]
        · rfl

/-! ### Clauses of an `if` -/

def moreClauses (inner : Inner) (seenElse : Bool) : Parser (List Node) := do
  clausesWithin inner seenElse [] (← get).rest

instance forward_moreClauses (seenElse : Bool) : Forward (moreClauses inner seenElse) := by
  unfold moreClauses
  infer_instance

omit [Inner.Forward inner] in
theorem clausesWithin_eq_map (seenElse : Bool) (clauses : List Node) (budget : List Slot) :
    clausesWithin inner seenElse clauses budget =
      (clauses.reverse ++ ·) <$> clausesWithin inner seenElse [] budget := by
  induction budget generalizing seenElse clauses with
  | nil => simp [clausesWithin]
  | cons slot budget ih =>
      unfold clausesWithin
      simp only [map_bind]
      refine bind_congr fun s => ?_
      split
      · simp
      · simp only [map_bind]
        refine bind_congr fun _ => bind_congr fun opened => bind_congr fun node => ?_
        rw [ih _ (node :: clauses), ih _ [node]]
        simp [Functor.map_map]

theorem length_lt_of_clause {isElse : Bool} {s s' : State} {opened : Token × Node}
    (hkind : s.kind ≠ .endOfFile) (hrun : clause inner isElse s = .ok opened s') :
    s'.rest.length < s.rest.length := by
  unfold clause at hrun
  obtain ⟨opening, middle, hadvance, hrest⟩ := bind_eq_ok.mp hrun
  obtain ⟨rfl, rfl⟩ : opening = s.current ∧ middle = s.advanced := by
    simpa [eq_comm] using hadvance
  have hshorter := State.length_advanced hkind
  have hlater := (Forward.advances_of_ok _ hrest).length_le
  omega

theorem moreClauses_eq (seenElse : Bool) :
    moreClauses inner seenElse = do
      match clauseKind? (← get).kindPastNewlines with
      | none => return []
      | some isElse =>
          skipNewlines
          let (opening, node) ← clause inner isElse
          let node ← checkedClause seenElse isElse opening node
          let more ← moreClauses inner (seenElse || isElse)
          return node :: more := by
  refine eq_step_of_rounds (fun _ : Bool => pure [])
    (fun next seenElse => do
      match clauseKind? (← get).kindPastNewlines with
      | none => return []
      | some isElse =>
          skipNewlines
          let (opening, node) ← clause inner isElse
          let node ← checkedClause seenElse isElse opening node
          let more ← next (seenElse || isElse)
          return node :: more)
    (fun seenElse budget => clausesWithin inner seenElse [] budget) ?_ ?_ ?_ ?_ seenElse
  · exact fun _ => rfl
  · intro seenElse slot budget
    simp only [clausesWithin]
    refine bind_congr fun s => ?_
    cases clauseKind? s.kindPastNewlines with
    | none => rfl
    | some isElse =>
        refine bind_congr fun _ => bind_congr fun opened => bind_congr fun node => ?_
        rw [clausesWithin_eq_map, map_eq_pure_bind]
        rfl
  · intro seenElse next s hrest
    simp [run_bind, State.kindPastNewlines, hrest, clauseKind?]
  · intro seenElse next next' s hnext
    simp only [run_bind (get : Parser State), run_get]
    cases hclause : clauseKind? s.kindPastNewlines with
    | none => rfl
    | some isElse =>
        simp only [run_bind skipNewlines, run_skipNewlines]
        refine bind_congr_of_forward _ fun opened s₂ hopened _ => ?_
        have hkind : s.pastNewlines.kind ≠ .endOfFile := by
          rw [State.kind_pastNewlines]
          intro hend
          simp [hend, clauseKind?] at hclause
        have := length_lt_of_clause inner hkind hopened
        have := s.advances_pastNewlines.length_le
        refine bind_congr_of_forward _ fun node s₃ _ h₃ => ?_
        have := h₃.length_le
        rw [run_bind, run_bind, hnext _ s₃ (by omega)]

end

/-! ### Statements -/

/-- Recovers from what stands behind a whole statement on its line.  A separator or the end of the list
stands there as it should, and stays. -/
def separated (inBlock : Bool) : Parser (Option Node) := do
  let s ← get
  if s.kind.isSeparator ∨ atListEnd inBlock s then
    return none
  else
    report s.missingSeparator
    let node ← recover s.mark inBlock
    return some node

/-- What a statement that was read or has failed leaves in a list. -/
def afterAttempt (mark : Mark) (inBlock : Bool) : Except SyntaxError Node → Parser (List Node)
  | .ok node => do
      let behind ← separated inBlock
      return node :: behind.toList
  | .error e => do
      report e
      let node ← recover mark inBlock
      return [node]

/-- Reads a statement, or recovers from a broken one.  The separators after it stay. -/
def statementRound (statement : Parser Node) (inBlock : Bool) : Parser (List Node) := do
  let s ← get
  let outcome ← attempt statement
  afterAttempt s.mark inBlock outcome

section
variable {R : State → State → Prop} [Steps R]

instance keeps_separated (inBlock : Bool) : Keeps R (separated inBlock) := by
  unfold separated
  infer_instance

instance keeps_afterAttempt (mark : Mark) (inBlock : Bool) (outcome : Except SyntaxError Node) :
    Keeps R (afterAttempt mark inBlock outcome) := by
  cases outcome <;> unfold afterAttempt <;> infer_instance

instance keeps_statementRound (statement : Parser Node) [Keeps R statement] (inBlock : Bool) :
    Keeps R (statementRound statement inBlock) := by
  unfold statementRound
  infer_instance

end

section
variable (statement : Parser Node) [Forward statement] (inBlock : Bool)

theorem length_recovered_lt {s s' : State} (hadvances : s.Advances s')
    (hseparator : s.kind.isSeparator = false) (hend : atListEnd inBlock s = false) :
    (s'.recovered s.mark inBlock).rest.length < s.rest.length := by
  have hlater := (Forward.advances_of_ok _ (run_recover s.mark inBlock s')).length_le
  rcases Nat.lt_or_eq_of_le hadvances.length_le with hshorter | hsame
  · omega
  · obtain ⟨hrest, hconsumed, hkind⟩ := hadvances.eq_of_length_eq hsame
    have hfile : s.kind ≠ .endOfFile := by
      intro h
      simp [atListEnd, h] at hend
    obtain ⟨slot, slots, hslots⟩ := State.exists_rest_eq_cons hfile
    have hpoint : isRecoveryPoint inBlock [] slot.kind = false := by
      rw [← State.kind_of_cons hslots]
      simp only [atListEnd, Bool.or_eq_false_iff] at hend
      simp [isRecoveryPoint, hseparator, hend.2]
    have hfirst : State.pastBroken inBlock [] s'.rest s' =
        State.pastBroken inBlock (Bracket.next [] slot.kind) slots s'.advanced := by
      rw [hrest, hslots, State.pastBroken, hpoint]
      rfl
    have hskipped := (Forward.advances_of_ok _
      (run_skipToRecoveryPoint inBlock (Bracket.next [] slot.kind) slots s'.advanced)).length_le
    have hadvanced := State.length_advanced (s := s') (by rw [hkind]; exact hfile)
    have hbehind : s'.consumed - s.mark.index = 0 := by
      simp [State.mark, hconsumed]
    have hrecovered : (s'.recovered s.mark inBlock).rest =
        (State.pastBroken inBlock [] s'.rest s').rest := by
      simp [State.recovered, hbehind, State.logged, Bracket.owed]
    rw [hrecovered, hfirst]
    omega

theorem length_lt_of_statementRound {s s' : State} {nodes : List Node}
    (hseparator : s.kind.isSeparator = false) (hend : atListEnd inBlock s = false)
    (hrun : statementRound statement inBlock s = .ok nodes s') :
    s'.rest.length < s.rest.length := by
  unfold statementRound at hrun
  simp only [run_bind (get : Parser State), run_get, run_bind (attempt statement), run_attempt]
    at hrun
  cases hstatement : statement s with
  | error e middle =>
      simp only [hstatement, afterAttempt, run_bind, run_report, run_recover, run_pure] at hrun
      cases hrun
      have hmiddle := Forward.advances_of_error statement hstatement
      exact length_recovered_lt inBlock (hmiddle.trans (middle.advances_reported _)) hseparator hend
  | ok node middle =>
      simp only [hstatement, afterAttempt] at hrun
      have hmiddle := Forward.advances_of_ok statement hstatement
      rcases Nat.lt_or_eq_of_le hmiddle.length_le with hshorter | hsame
      · have hlater := (Forward.advances_of_ok _ hrun).length_le
        omega
      · obtain ⟨hrest, hconsumed, hkind⟩ := hmiddle.eq_of_length_eq hsame
        have hseparator' : middle.kind.isSeparator = false := by rw [hkind, hseparator]
        have hend' : atListEnd inBlock middle = false := by
          unfold atListEnd at hend ⊢
          rw [hkind, hend]
        obtain ⟨behind, last, hrequire, hrest'⟩ := bind_eq_ok.mp hrun
        cases hrest'
        simp only [separated, run_bind, run_get, run_ite, hseparator', hend',
          Bool.false_eq_true, or_self, if_false, run_report, run_recover, run_pure] at hrequire
        cases hrequire
        have hshorter := length_recovered_lt inBlock
          (middle.advances_reported (.ofError middle.missingSeparator)) hseparator' hend'
        rw [hrest] at hshorter
        exact hshorter

omit [Forward statement] in
/-- The separators after a statement are all that a round leaves and `statementOrError` does not. -/
theorem statementOrError_eq_round (s : State) :
    ∃ nodes s', statementRound statement inBlock s = .ok nodes s' ∧
      (statementOrError statement inBlock s = .ok nodes s' ∨
        statementOrError statement inBlock s = .ok nodes s'.pastSeparators) := by
  unfold statementRound statementOrError
  simp only [run_bind (get : Parser State), run_get, run_bind (attempt statement), run_attempt]
  cases hstatement : statement s with
  | error e middle =>
      simp only [afterAttempt, run_bind, run_report, run_recover, run_pure]
      exact ⟨_, _, rfl, .inl rfl⟩
  | ok node middle =>
      simp only [afterAttempt, run_bind, separated, requireSeparator, run_get, run_ite]
      by_cases hseparator : middle.kind.isSeparator
      · refine ⟨[node], middle, ?_, .inr ?_⟩
        · simp [hseparator]
        · simp [hseparator]
      · by_cases hend : atListEnd inBlock middle
        · refine ⟨[node], middle, ?_, .inl ?_⟩
          · simp [hend]
          · simp [hseparator, hend]
        · simp only [hseparator, hend, Bool.false_eq_true, or_self, if_false, run_report,
            run_recover, run_pure]
          exact ⟨_, _, rfl, .inl rfl⟩

theorem length_lt_of_statementOrError {s s' : State} {nodes : List Node}
    (hseparator : s.kind.isSeparator = false) (hend : atListEnd inBlock s = false)
    (hrun : statementOrError statement inBlock s = .ok nodes s') :
    s'.rest.length < s.rest.length := by
  obtain ⟨nodes', middle, hround, hsame⟩ := statementOrError_eq_round statement inBlock s
  have hshorter := length_lt_of_statementRound statement inBlock hseparator hend hround
  rw [hrun] at hsame
  rcases hsame with hsame | hsame
  · cases hsame
    exact hshorter
  · cases hsame
    have hlater := middle.advances_pastSeparators.length_le
    omega

omit [Forward statement] in
theorem statementsWithin_eq_map (body : List Node) (budget : List Slot) :
    statementsWithin statement inBlock body budget =
      (body.reverse ++ ·) <$> statementsWithin statement inBlock [] budget := by
  induction budget generalizing body with
  | nil => simp [statementsWithin]
  | cons slot budget ih =>
      unfold statementsWithin
      simp only [map_bind]
      refine bind_congr fun _ => bind_congr fun s => ?_
      split
      · simp
      · simp only [map_bind]
        refine bind_congr fun nodes => ?_
        rw [ih (nodes.reverse ++ body), ih (nodes.reverse ++ [])]
        simp [Functor.map_map]

theorem statementList_eq_orError :
    statementList statement inBlock = (do
      skipSeparators
      let s ← get
      if atListEnd inBlock s then
        return []
      else
        let nodes ← statementOrError statement inBlock
        let more ← statementList statement inBlock
        return nodes ++ more) := by
  refine eq_step_of_rounds (fun _ : Unit => pure [])
    (fun next _ => do
      skipSeparators
      let s ← get
      if atListEnd inBlock s then
        return []
      else
        let nodes ← statementOrError statement inBlock
        let more ← next ()
        return nodes ++ more)
    (fun _ budget => statementsWithin statement inBlock [] budget) ?_ ?_ ?_ ?_ ()
  · exact fun _ => rfl
  · intro _ slot budget
    simp only [statementsWithin]
    refine bind_congr fun _ => bind_congr fun s => ?_
    split
    · rfl
    · refine bind_congr fun nodes => ?_
      rw [statementsWithin_eq_map, map_eq_pure_bind]
      simp
  · intro _ next s hrest
    have hskip : s.pastSeparators = s := by
      rw [State.pastSeparators, hrest]
      rfl
    simp only [run_bind skipSeparators, run_skipSeparators, hskip]
    simp [run_bind, atListEnd, State.kind_of_nil hrest]
  · intro _ next next' s hnext
    simp only [run_bind skipSeparators, run_skipSeparators, run_bind (get : Parser State), run_get,
      run_ite]
    split
    · rfl
    · rename_i hend
      refine bind_congr_of_forward _ fun nodes s₂ hround _ => ?_
      have := length_lt_of_statementOrError statement inBlock s.isSeparator_pastSeparators
        (by simpa using hend) hround
      have := s.advances_pastSeparators.length_le
      rw [run_bind, run_bind, hnext () s₂ (by omega)]

omit [Forward statement] in
theorem statementOrError_bind {f : List Node → Parser α} :
    (do
      let nodes ← statementOrError statement inBlock
      skipSeparators
      f nodes) = (do
      let nodes ← statementRound statement inBlock
      skipSeparators
      f nodes) := by
  funext s
  obtain ⟨nodes, middle, hround, hsame⟩ := statementOrError_eq_round statement inBlock s
  simp only [run_bind, hround, run_skipSeparators]
  rcases hsame with hsame | hsame
  · simp only [hsame]
  · simp only [hsame, State.pastSeparators_pastSeparators]

theorem statementList_eq :
    statementList statement inBlock = (do
      skipSeparators
      let s ← get
      if atListEnd inBlock s then
        return []
      else
        let nodes ← statementRound statement inBlock
        let more ← statementList statement inBlock
        return nodes ++ more) := by
  obtain ⟨tail, htail⟩ : ∃ tail, statementList statement inBlock = (do
      skipSeparators
      tail) := ⟨_, statementList_eq_orError statement inBlock⟩
  refine (statementList_eq_orError statement inBlock).trans ?_
  refine bind_congr fun _ => bind_congr fun s => ?_
  split
  · rfl
  · rw [htail]
    simp only [bind_assoc]
    exact statementOrError_bind statement inBlock

theorem statementList_pastSeparators (s : State) :
    statementList statement inBlock s.pastSeparators = statementList statement inBlock s := by
  rw [statementList_eq, run_bind, run_bind, run_skipSeparators, run_skipSeparators,
    State.pastSeparators_pastSeparators]

end

end Parser

end ScriptSyntax
