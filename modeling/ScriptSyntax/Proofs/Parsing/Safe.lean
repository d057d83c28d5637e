import ScriptSyntax.Proofs.Parsing.Rounds
import ScriptSyntax.Proofs.Parsing.Whole
import ScriptSyntax.Proofs.Token.Stored

/-!
A parse never faults.  Every state on the way stands at one of the tokens, `Reaches.indexes`, each round of a
list of statements consumes one, `statementList_progresses`, and the last state is at the end of the file,
`parse_ends_in_range`.
-/

namespace ScriptSyntax

/-! ### The states on the way -/

/-- The state `s'` comes after `s` in some sequence of the steps that a parse is made of. -/
inductive State.Reaches (s : State) : State → Prop where
  | refl : Reaches s s
  | advanced {s' : State} (h : Reaches s s') : Reaches s s'.advanced
  | reported {s' : State} (h : Reaches s s') (d : Diagnostic) : Reaches s (s'.reported d)
  | logged {s' : State} (h : Reaches s s') (event : Event) : Reaches s (s'.logged event)
  | opened {s' : State} (h : Reaches s s') (closer : TokenKind) (expressionList : Bool) :
      Reaches s (s'.opened closer expressionList)
  | closed {s' : State} (h : Reaches s s') : Reaches s s'.closed
  | entered {s' : State} (h : Reaches s s') (hdepth : s'.depth < nestingLimit) : Reaches s s'.entered
  | leaving {s' : State} (h : Reaches s s') {depth : Nat} (hdepth : depth ≤ s'.depth) :
      Reaches s (s'.leaving depth)

theorem State.Reaches.trans {first second third : State} (h : first.Reaches second)
    (h' : second.Reaches third) : first.Reaches third := by
  induction h' with
  | refl => exact h
  | advanced _ ih => exact ih.advanced
  | reported _ d ih => exact ih.reported d
  | logged _ event ih => exact ih.logged event
  | opened _ closer expressionList ih => exact ih.opened closer expressionList
  | closed _ ih => exact ih.closed
  | entered _ hdepth ih => exact ih.entered hdepth
  | leaving _ hdepth ih => exact ih.leaving hdepth

namespace Parser

/-- A form goes through states that can be reached, and leaves no level that it has not entered. -/
instance steps_reaches : Steps (fun s s' => s.Advances s' ∧ s.Reaches s') where
  refl s := ⟨.refl s, .refl⟩
  trans h h' := ⟨h.1.trans h'.1, h.2.trans h'.2⟩
  advanced s := ⟨s.advances_advanced, .advanced .refl⟩
  reported s d _ := ⟨s.advances_reported d, .reported .refl d⟩
  logged s event := ⟨s.advances_logged event, .logged .refl event⟩
  closed h := ⟨h.1.closed, ((State.Reaches.refl.opened _ _).trans h.2).closed⟩
  leaving h := ⟨h.1.leaving, h.2.leaving h.1.depth⟩

instance keeps_reaches_enterNesting : Keeps (fun s s' => s.Advances s' ∧ s.Reaches s') enterNesting where
  leads s := by
    unfold finalState
    rw [run_enterNesting]
    by_cases hdeep : nestingLimit ≤ s.depth
    · rw [if_pos hdeep]
      exact ⟨.refl s, .refl⟩
    · rw [if_neg hdeep]
      exact ⟨s.advances_entered, .entered .refl (Nat.lt_of_not_le hdeep)⟩

end Parser

/-- The state stands at one of the tokens `all`, with those before it behind and the others ahead. -/
structure State.Indexes (all : List Slot) (s : State) : Prop where
  inRange : s.consumed < all.length
  ahead : all.drop s.consumed = s.slots
  behind : 0 < s.consumed → all[s.consumed - 1]?.map (·.token.span.stop) = some s.previousEnd
  depth : s.depth ≤ nestingLimit

namespace State.Indexes

variable {all : List Slot} {s : State}

theorem initial (hslots : s.slots = all) (hconsumed : s.consumed = 0) (hdepth : s.depth = 0) :
    s.Indexes all where
  inRange := by simp [hconsumed, ← hslots, slots]
  ahead := by rw [hconsumed, hslots, List.drop_zero]
  behind hpositive := absurd hpositive (by simp [hconsumed])
  depth := by simp [hdepth]

theorem slot (h : s.Indexes all) : all[s.consumed]? = some s.slot := by
  have hhead : all[s.consumed]? = (all.drop s.consumed).head? := by simp
  rw [hhead, h.ahead, slots, State.slot]
  cases s.rest <;> rfl

theorem advanced (h : s.Indexes all) : s.advanced.Indexes all := by
  cases hrest : s.rest with
  | nil =>
      have hsame : s.advanced = s := by simp [State.advanced, hrest]
      rw [hsame]
      exact h
  | cons slot rest =>
      have hnoted := s.advances_noted slot
      have hslots : s.slots = slot :: s.advanced.slots := by
        simp [slots, State.advanced, hrest, hnoted.endOfFile, hnoted.commentAtEnd]
      have hconsumed : s.advanced.consumed = s.consumed + 1 := by simp [State.advanced, hrest]
      have hahead := h.ahead
      rw [hslots] at hahead
      constructor
      · have hlength := congrArg List.length hahead
        simp only [List.length_drop, List.length_cons, slots, List.length_append, List.length_nil]
          at hlength
        omega
      · rw [hconsumed, ← List.tail_drop, hahead]
        rfl
      · intro _
        rw [hconsumed, Nat.add_sub_cancel, h.slot, slot_of_cons hrest]
        simp [State.advanced, hrest]
      · rw [State.depth_advanced]
        exact h.depth

theorem peek (h : s.Indexes all) (hlength : all.length ≤ sumLimit) : s.peek? 1 = .ok (s.peek 1) := by
  have hrange := h.inRange
  unfold peek?
  rw [if_neg]
  omega

end State.Indexes

theorem State.Reaches.indexes {all : List Slot} {s s' : State} (h : s.Reaches s')
    (hs : s.Indexes all) : s'.Indexes all := by
  induction h with
  | refl => exact hs
  | advanced _ ih => exact ih.advanced
  | reported _ _ ih => exact ⟨ih.inRange, ih.ahead, ih.behind, ih.depth⟩
  | logged _ _ ih => exact ⟨ih.inRange, ih.ahead, ih.behind, ih.depth⟩
  | opened _ _ _ ih => exact ⟨ih.inRange, ih.ahead, ih.behind, ih.depth⟩
  | closed _ ih => exact ⟨ih.inRange, ih.ahead, ih.behind, ih.depth⟩
  | entered _ hdepth ih => exact ⟨ih.inRange, ih.ahead, ih.behind, hdepth⟩
  | leaving _ hdepth ih => exact ⟨ih.inRange, ih.ahead, ih.behind, Nat.le_trans hdepth ih.depth⟩

theorem indexes_ofSource (source : String) (options : Options) :
    (State.ofSource source options).Indexes (Slot.ofTokens (tokenize source)) := by
  have hsource : State.ofSource source options =
      State.ofText options Position.origin source.toList := rfl
  apply State.Indexes.initial
  · rw [hsource, State.ofText_eq, tokenize, Scan.tokens_eq, Slot.ofTokens, ← Slot.significant,
      Slot.significant_append]
    rfl
  · rw [hsource, State.ofText_eq]
  · rw [hsource, State.ofText_eq]

theorem length_ofTokens_le {source : String} (hsize : source.utf8ByteSize < Position.limit) :
    (Slot.ofTokens (tokenize source)).length ≤ sumLimit := by
  have hsubset : (Slot.ofTokens (tokenize source)).length ≤ (tokenize source).length := by
    have hmap := Slot.map_token_significant none (tokenize source)
    have hfilter := List.length_filter_le (!·.kind.isTrivia) (tokenize source)
    rw [← hmap, List.length_map] at hfilter
    exact hfilter
  have hrun := (Scan.run_lexemes Position.origin source.toList).length_le
  rw [Text.advancedBy_offset, Text.byteLength_toList] at hrun
  have htokens : (tokenize source).length =
      (Scan.lexemes Position.origin source.toList).length + 1 := by
    rw [tokenize, Scan.tokens_eq, List.length_append]
    rfl
  simp only [Position.origin, Position.limit, sumLimit] at *
  omega

/-! ### The rounds of a list -/

/-- The rounds of a list of statements up to its end, each of which consumes a token at least. -/
inductive State.Progresses (inBlock : Bool) : State → List Node → State → Prop where
  | ends {s : State} (hend : Parser.atListEnd inBlock s.pastSeparators = true) :
      Progresses inBlock s [] s.pastSeparators
  | round {s middle last : State} {nodes more : List Node}
      (hend : Parser.atListEnd inBlock s.pastSeparators = false)
      (hround : Parser.statementOrError Parser.statement inBlock s.pastSeparators = .ok nodes middle)
      (hconsumed : s.pastSeparators.consumed < middle.consumed)
      (hlater : Progresses inBlock middle more last) : Progresses inBlock s (nodes ++ more) last

theorem State.Progresses.atListEnd {inBlock : Bool} {s s' : State} {nodes : List Node}
    (h : Progresses inBlock s nodes s') : Parser.atListEnd inBlock s' = true := by
  induction h with
  | ends hend => exact hend
  | round _ _ _ _ ih => exact ih

theorem Parser.statementList_progresses (inBlock : Bool) (s : State) :
    ∃ nodes s', statementList statement inBlock s = .ok nodes s' ∧ s.Progresses inBlock nodes s' := by
  -- the induction is on the tokens left, of which each round leaves fewer
  induction hlength : s.rest.length using Nat.strongRecOn generalizing s with
  | ind length ih =>
      rw [statementList_eq_orError, run_bind, run_skipSeparators]
      simp only [run_bind (get : Parser State), run_get, run_ite]
      by_cases hend : Parser.atListEnd inBlock s.pastSeparators = true
      · rw [if_pos hend]
        exact ⟨[], s.pastSeparators, rfl, .ends hend⟩
      · rw [if_neg hend]
        have hmore := Bool.eq_false_iff.mpr hend
        obtain ⟨nodes, middle, hround⟩ := succeeds_statementOrError statement inBlock s.pastSeparators
        have hshorter := length_lt_of_statementOrError statement inBlock
          s.isSeparator_pastSeparators hmore hround
        have hskipped := s.advances_pastSeparators.length_le
        have hadvances := (Forward.advances_of_ok _ hround).consumed
        obtain ⟨more, last, hlist, hlater⟩ := ih middle.rest.length (by omega) middle rfl
        refine ⟨nodes ++ more, last, ?_, .round hmore hround (by omega) hlater⟩
        simp only [run_bind, hround, hlist, run_pure]

/-! ### The whole parse -/

/-- For every source that is not too long the tokens are read without a fault and can be stored, every state
that the parse can go through stands at one of them, and the parse ends at the end of the file.  In every state
at all, a list of statements is read in rounds that each consume a token, up to the end of the file or, in a
block, to the brace that closes it. -/
theorem parse_ends_in_range {source : String} (options : Options)
    (hsize : source.utf8ByteSize < Position.limit) :
    (∃ stream, (TokenStream.ofSource source).drain = .ok (tokenize source, stream)) ∧
      (∀ token ∈ tokenize source, token.Stored source) ∧
      (∀ s, (State.ofSource source options).Reaches s →
        s.Indexes (Slot.ofTokens (tokenize source)) ∧ s.peek? 1 = .ok (s.peek 1)) ∧
      (∃ s, parseTokens options Position.origin (tokenize source) = (parse source options, s) ∧
        (State.ofSource source options).Reaches s ∧ s.rest = [] ∧ s.kind = .endOfFile) ∧
      ∀ (s : State) (inBlock : Bool), (∀ slot ∈ s.rest, slot.kind ≠ .endOfFile) →
        ∃ nodes s', Parser.statementList Parser.statement inBlock s = .ok nodes s' ∧
          s.Progresses inBlock nodes s' ∧
          (s'.rest = [] ∨ inBlock = true ∧ s'.kind = .rightBrace) := by
  refine ⟨TokenStream.drain_ofSource hsize, fun token => stored_of_mem_tokenize hsize, ?_, ?_, ?_⟩
  · intro s hreaches
    have hindexes := hreaches.indexes (indexes_ofSource source options)
    exact ⟨hindexes, hindexes.peek (length_ofTokens_le hsize)⟩
  · obtain ⟨root, s, hrun⟩ := Parser.succeeds_sourceFile (State.ofSource source options)
    have hresult : parseTokens options Position.origin (tokenize source) = (⟨root, s.diagnostics⟩, s) := by
      have hread := State.readSource_eq hrun
      unfold State.ofSource at hread
      simp only [parseTokens, hread]
    have hparse : parse source options = ⟨root, s.diagnostics⟩ := congrArg Prod.fst hresult
    have hleads := (Parser.Keeps.of_ok
      (R := fun s s' => s.Advances s' ∧ s.Reaches s') Parser.sourceFile hrun).2
    simp only [Parser.sourceFile, Parser.bind_eq_ok, Parser.get_eq_ok, Parser.pure_eq_ok] at hrun
    obtain ⟨body, _, hbody, _, _, ⟨rfl, rfl⟩, rfl, rfl⟩ := hrun
    have hrest := Parser.rest_statementList kind_ne_of_mem_rest hbody
    simp only [Bool.false_eq_true, false_and, or_false] at hrest
    exact ⟨_, by rw [hresult, hparse], hleads, hrest, State.kind_of_nil hrest⟩
  · intro s inBlock htokens
    obtain ⟨nodes, s', hrun, hprogresses⟩ := Parser.statementList_progresses inBlock s
    exact ⟨nodes, s', hrun, hprogresses, Parser.rest_statementList htokens hrun⟩

theorem open_call_ends_in_range :
    "f(1,\n\x7d b".utf8ByteSize < Position.limit ∧
      (∃ s, parseTokens {} Position.origin (tokenize "f(1,\n\x7d b") = (parse "f(1,\n\x7d b" {}, s) ∧
        (State.ofSource "f(1,\n\x7d b" {}).Reaches s ∧ s.rest = [] ∧ s.kind = .endOfFile) ∧
      ∃ nodes s', Parser.statementList Parser.statement true (State.ofSource "f(1,\n\x7d b" {}) =
          .ok nodes s' ∧ (State.ofSource "f(1,\n\x7d b" {}).Progresses true nodes s' ∧
        (s'.rest = [] ∨ s'.kind = .rightBrace) := by
  have hsize : "f(1,\n\x7d b".utf8ByteSize < Position.limit := by decide
  obtain ⟨-, -, -, hfile, hblock⟩ := parse_ends_in_range {} hsize
  obtain ⟨nodes, s', hrun, hprogresses, hend⟩ := hblock _ true kind_ne_of_mem_rest
  exact ⟨hsize, hfile, nodes, s', hrun, hprogresses, hend.imp_right And.right⟩

end ScriptSyntax
