import ScriptSyntax.Proofs.Parsing.Loop

/-!
Two runs side by side.  The tokens of both are the same up to a cut; behind it they may differ.  As long as
the first run stays before the cut the second one does the same: `Cut.Agrees`.  A parse looks past its
next token only for a parenthesis behind the word for a function and for a clause on a later line, so a cut
at a separator that no clause follows cannot be seen from before it, nor can one behind tokens that open no
block.
-/

namespace ScriptSyntax

/-- The kind of the first of some tokens that is no newline. -/
def Slot.kindPastNewlines (slots : List Slot) : TokenKind :=
  match slots.find? (·.kind ≠ .newline) with
  | some slot => slot.kind
  | none => .endOfFile

/-- The token and the comment before it begin at places with the property. -/
def Slot.Lies (holds : Position → Prop) (slot : Slot) : Prop :=
  holds slot.token.span.start ∧ ∀ span ∈ slot.commentBefore, holds span.start

/-- What sets two runs apart.  Both read the same tokens up to the cut; these lie at places with the
property `holds`. -/
structure Cut where
  /-- The tokens of the first run behind the cut. -/
  first : List Slot
  /-- The tokens of the second run behind the cut. -/
  second : List Slot
  /-- The number of tokens that the first run consumed before the second one began. -/
  skipped : Nat
  /-- The diagnostics of the first run before the second one began. -/
  earlier : List Diagnostic
  holds : Position → Prop
  /-- The tokens before the cut may open a block. -/
  blocks : Bool
  /-- Either nothing is behind the cut, or a separator; no clause follows it where there may be a block before
  the cut. -/
  blind : (first = [] ∧ second = []) ∨ ∃ slot rest rest', first = slot :: rest ∧
    second = slot :: rest' ∧ slot.kind.isSeparator ∧ holds slot.token.span.start ∧
    (blocks = true → Parser.clauseKind? (Slot.kindPastNewlines first) = none ∧
      Parser.clauseKind? (Slot.kindPastNewlines second) = none)

namespace Cut

/-- The token can stand before the cut. -/
structure Precedes (cut : Cut) (slot : Slot) : Prop where
  lies : slot.Lies cut.holds
  kind_ne : cut.blocks = false → slot.kind ≠ .leftBrace

/-- The states are at the same place before the cut, and what was read before is the same. -/
structure Alike (cut : Cut) (s t : State) : Prop where
  rest : ∃ before, s.rest = before ++ cut.first ∧ t.rest = before ++ cut.second ∧
    ∀ slot ∈ before, cut.Precedes slot
  ends : cut.first = [] → s.endOfFile = t.endOfFile ∧ s.commentAtEnd = t.commentAtEnd ∧
    cut.holds s.endOfFile
  consumed : s.consumed = t.consumed + cut.skipped
  previousEnd : 0 < t.consumed → s.previousEnd = t.previousEnd
  delimiters : s.delimiters = t.delimiters
  depth : s.depth = t.depth
  options : s.options = t.options
  reports : s.reports = t.reports ++ cut.earlier
  lies : ∀ d ∈ t.reports, cut.holds d.span.start

def Beyond (cut : Cut) (s : State) : Prop := s.rest.length < cut.first.length

theorem Beyond.advances {cut : Cut} {s s' : State} (h : cut.Beyond s) (hadvances : s.Advances s') :
    cut.Beyond s' :=
  Nat.lt_of_le_of_lt hadvances.length_le h

namespace Alike

variable {cut : Cut} {s t : State}

theorem slot_eq (h : cut.Alike s t) : s.slot = t.slot ∧ cut.holds s.current.span.start := by
  obtain ⟨before, hs, ht, hbefore⟩ := h.rest
  cases before with
  | cons slot before =>
      have hs : s.slot = slot := State.slot_of_cons hs
      refine ⟨hs.trans (State.slot_of_cons ht).symm, ?_⟩
      rw [State.current, hs]
      exact (hbefore slot (by simp)).lies.1
  | nil =>
      -- at the cut itself both runs still see the same separator, or the same end of the file
      rw [List.nil_append] at hs ht
      rcases cut.blind with ⟨hfirst, hsecond⟩ | ⟨slot, rest, rest', hfirst, hsecond, -, hslot, -⟩
      · obtain ⟨heof, hcomment, hend⟩ := h.ends hfirst
        rw [hfirst] at hs
        rw [hsecond] at ht
        constructor
        · simp only [State.slot, hs, ht, heof, hcomment]
        · simp only [State.current, State.slot, hs, List.headD_nil]
          exact hend
      · rw [hfirst] at hs
        rw [hsecond] at ht
        have hs : s.slot = slot := State.slot_of_cons hs
        refine ⟨hs.trans (State.slot_of_cons ht).symm, ?_⟩
        rw [State.current, hs]
        exact hslot

theorem slot (h : cut.Alike s t) : s.slot = t.slot := h.slot_eq.1

theorem current (h : cut.Alike s t) : s.current = t.current :=
  congrArg Slot.token h.slot

theorem kind (h : cut.Alike s t) : s.kind = t.kind :=
  congrArg Token.kind h.current

theorem holds_current (h : cut.Alike s t) : cut.holds s.current.span.start := h.slot_eq.2

theorem atStatementEnd (h : cut.Alike s t) : s.atStatementEnd = t.atStatementEnd := by
  unfold State.atStatementEnd
  rw [h.kind]

theorem atBoundary (h : cut.Alike s t) : s.atBoundary = t.atBoundary := by
  unfold State.atBoundary
  rw [h.kind, h.delimiters]

theorem atListEnd (h : cut.Alike s t) (inBlock : Bool) :
    Parser.atListEnd inBlock s = Parser.atListEnd inBlock t := by
  unfold Parser.atListEnd
  rw [h.kind]

theorem unexpected (h : cut.Alike s t) (expected : String) :
    s.unexpected expected = t.unexpected expected := by
  unfold State.unexpected
  rw [h.kind, h.current]

theorem missingSeparator (h : cut.Alike s t) : s.missingSeparator = t.missingSeparator := by
  unfold State.missingSeparator
  rw [h.kind, h.current]

theorem nestingTooDeep (h : cut.Alike s t) : s.nestingTooDeep = t.nestingTooDeep := by
  unfold State.nestingTooDeep
  rw [h.current]

theorem missingExpression (h : cut.Alike s t) : s.missingExpression = t.missingExpression := by
  unfold State.missingExpression
  rw [h.current]

theorem spanFrom (h : cut.Alike s t) (hlater : 0 < t.consumed) (start : Position) :
    s.spanFrom start = t.spanFrom start := by
  rw [State.spanFrom, State.spanFrom, h.previousEnd hlater]

theorem kind_peek (h : cut.Alike s t) (hkind : t.kind = .keyword .fnKw) :
    (s.peek 1).kind = (t.peek 1).kind := by
  obtain ⟨before, hs, ht, -⟩ := h.rest
  cases before with
  | nil =>
      rw [List.nil_append] at ht
      rcases cut.blind with ⟨-, hsecond⟩ | ⟨slot, rest, rest', -, hsecond, hslot, -⟩
      · rw [hsecond] at ht
        rw [State.kind_of_nil ht] at hkind
        cases hkind
      · rw [hsecond] at ht
        rw [State.kind_of_cons ht] at hkind
        rw [hkind] at hslot
        cases hslot
  | cons slot before =>
      simp only [State.peek, hs, ht, List.cons_append, List.drop_succ_cons, List.drop_zero]
      cases before with
      | cons next before => rfl
      | nil =>
          rw [List.nil_append, List.nil_append]
          rcases cut.blind with ⟨hfirst, hsecond⟩ | ⟨next, rest, rest', hfirst, hsecond, -⟩
          · rw [hfirst, hsecond]
            rfl
          · rw [hfirst, hsecond]
            rfl

theorem kind_ne_leftBrace (h : cut.Alike s t) (hblocks : cut.blocks = false) : t.kind ≠ .leftBrace := by
  obtain ⟨before, -, ht, hbefore⟩ := h.rest
  cases before with
  | cons slot before =>
      rw [State.kind_of_cons ht]
      exact (hbefore slot (by simp)).kind_ne hblocks
  | nil =>
      rw [List.nil_append] at ht
      intro hbrace
      rcases cut.blind with ⟨-, hsecond⟩ | ⟨slot, rest, rest', -, hsecond, hslot, -⟩
      · rw [hsecond] at ht
        rw [State.kind_of_nil ht] at hbrace
        cases hbrace
      · rw [hsecond] at ht
        rw [← State.kind_of_cons ht, hbrace] at hslot
        cases hslot

theorem clauseKind? (h : cut.Alike s t) (hblocks : cut.blocks = true) :
    Parser.clauseKind? s.kindPastNewlines = Parser.clauseKind? t.kindPastNewlines := by
  obtain ⟨before, hs, ht, -⟩ := h.rest
  show Parser.clauseKind? (Slot.kindPastNewlines s.rest) = Parser.clauseKind? (Slot.kindPastNewlines t.rest)
  rw [hs, ht]
  unfold Slot.kindPastNewlines
  rw [List.find?_append, List.find?_append]
  cases before.find? (·.kind ≠ .newline) with
  | some slot => rfl
  | none =>
      rw [Option.none_or, Option.none_or]
      rcases cut.blind with ⟨hfirst, hsecond⟩ | ⟨_, _, _, -, -, -, -, hclause⟩
      · rw [hfirst, hsecond]
      · obtain ⟨hfirst, hsecond⟩ := hclause hblocks
        exact hfirst.trans hsecond.symm

/-! ### Steps -/

theorem entered (h : cut.Alike s t) : cut.Alike s.entered t.entered :=
  { h with depth := congrArg (· + 1) h.depth }

theorem leaving (h : cut.Alike s t) (depth : Nat) : cut.Alike (s.leaving depth) (t.leaving depth) :=
  { h with depth := rfl }

theorem opened (h : cut.Alike s t) (closer : TokenKind) (expressionList : Bool) :
    cut.Alike (s.opened closer expressionList) (t.opened closer expressionList) :=
  { h with delimiters := congrArg (Delimiter.mk closer expressionList :: ·) h.delimiters }

theorem closed (h : cut.Alike s t) : cut.Alike s.closed t.closed :=
  { h with delimiters := congrArg List.tail h.delimiters }

theorem logged (h : cut.Alike s t) (event event' : Event) :
    cut.Alike (s.logged event) (t.logged event') :=
  { h with }

theorem reported (h : cut.Alike s t) {d : Diagnostic} (hd : cut.holds d.span.start) :
    cut.Alike (s.reported d) (t.reported d) :=
  { h with
    reports := congrArg (d :: ·) h.reports
    lies := List.forall_mem_cons.mpr ⟨hd, h.lies⟩ }

theorem noted (h : cut.Alike s t) {slot : Slot} (hslot : slot.Lies cut.holds) :
    cut.Alike (s.noted slot) (t.noted slot) := by
  unfold State.noted
  cases hcomment : slot.commentBefore with
  | none => exact h
  | some span =>
      simp only [h.options, h.delimiters]
      split
      · exact h.reported (hslot.2 span hcomment)
      · exact h

theorem advanced (h : cut.Alike s t) : cut.Beyond s.advanced ∨ cut.Alike s.advanced t.advanced := by
  obtain ⟨before, hs, ht, hbefore⟩ := h.rest
  cases before with
  | nil =>
      rw [List.nil_append] at hs ht
      rcases cut.blind with ⟨hfirst, hsecond⟩ | ⟨slot, rest, _, hfirst, -⟩
      · right
        rw [hfirst] at hs
        rw [hsecond] at ht
        have hs : s.advanced = s := by rw [State.advanced, hs]
        have ht : t.advanced = t := by rw [State.advanced, ht]
        rw [hs, ht]
        exact h
      · left
        rw [hfirst] at hs
        rw [Beyond, State.rest_advanced hs, hfirst]
        exact Nat.lt_succ_self _
  | cons slot before =>
      right
      have hnoted := h.noted (hbefore slot (by simp)).lies
      have hs : s.advanced = { s.noted slot with
          rest := before ++ cut.first
          consumed := s.consumed + 1
          previousEnd := slot.token.span.stop } := by rw [State.advanced, hs]; rfl
      have ht : t.advanced = { t.noted slot with
          rest := before ++ cut.second
          consumed := t.consumed + 1
          previousEnd := slot.token.span.stop } := by rw [State.advanced, ht]; rfl
      rw [hs, ht]
      exact
        { hnoted with
          rest := ⟨before, rfl, rfl, fun later hlater => hbefore later (by simp [hlater])⟩
          consumed := by
            show s.consumed + 1 = t.consumed + 1 + cut.skipped
            rw [h.consumed]
            omega
          previousEnd := fun _ => rfl }

theorem rest_eq_nil_iff (h : cut.Alike s t) : s.rest = [] ↔ t.rest = [] := by
  obtain ⟨before, hs, ht, -⟩ := h.rest
  rw [hs, ht, List.append_eq_nil_iff, List.append_eq_nil_iff]
  rcases cut.blind with ⟨hfirst, hsecond⟩ | ⟨slot, rest, rest', hfirst, hsecond, -⟩
  · rw [hfirst, hsecond]
  · simp [hfirst, hsecond]

theorem pastWhile {p : TokenKind → Bool} (hend : p .endOfFile = false) (h : cut.Alike s t) :
    cut.Beyond (State.pastWhile p s.rest s) ∨
      cut.Alike (State.pastWhile p s.rest s) (State.pastWhile p t.rest t) := by
  induction hlength : s.rest.length using Nat.strongRecOn generalizing s t with
  | ind length ih =>
      cases hkind : p s.kind with
      | false =>
          right
          rw [State.pastWhile_eq_self hkind, State.pastWhile_eq_self (by rw [← h.kind]; exact hkind)]
          exact h
      | true =>
          have hshorter := State.length_advanced (s := s) (by
            intro hfile
            rw [hfile, hend] at hkind
            cases hkind)
          have hs := State.pastWhile_eq_advanced hend hkind
          have ht := State.pastWhile_eq_advanced (s := t) hend (by rw [← h.kind]; exact hkind)
          rw [hs, ht]
          rcases h.advanced with hbeyond | hadvanced
          · exact .inl (hbeyond.advances (State.advances_pastWhile _ _ _))
          · exact ih _ (by omega) hadvanced rfl

theorem pastNewlines (h : cut.Alike s t) :
    cut.Beyond s.pastNewlines ∨ cut.Alike s.pastNewlines t.pastNewlines :=
  h.pastWhile rfl

theorem pastSeparators (h : cut.Alike s t) :
    cut.Beyond s.pastSeparators ∨ cut.Alike s.pastSeparators t.pastSeparators :=
  h.pastWhile rfl

theorem pastBroken (h : cut.Alike s t) (inBlock : Bool) (owed : List TokenKind) :
    cut.Beyond (State.pastBroken inBlock owed s.rest s) ∨
      cut.Alike (State.pastBroken inBlock owed s.rest s)
        (State.pastBroken inBlock owed t.rest t) := by
  induction hlength : s.rest.length using Nat.strongRecOn generalizing s t owed with
  | ind length ih =>
      rw [State.pastBroken_eq inBlock owed s, State.pastBroken_eq inBlock owed t, ← h.kind]
      simp only [← h.rest_eq_nil_iff]
      split
      · exact .inr h
      · rename_i hmore
        have hrest : s.rest ≠ [] := fun hrest => hmore (.inl hrest)
        have hshorter := State.length_advanced_of_rest hrest
        rcases h.advanced with hbeyond | hadvanced
        · exact .inl (hbeyond.advances (State.advances_pastBroken _ _ _))
        · exact ih _ (by omega) hadvanced _ rfl

theorem passed {s' t' : State} (h : cut.Alike s t) (h' : cut.Alike s' t') (hs : s.Advances s')
    (ht : t.Advances t') :
    ∃ passed, s.rest = passed ++ s'.rest ∧ t.rest = passed ++ t'.rest := by
  obtain ⟨before, hsrest, htrest, -⟩ := h.rest
  obtain ⟨before', hsrest', htrest', -⟩ := h'.rest
  obtain ⟨first, hfirst⟩ := hs.rest
  obtain ⟨second, hsecond⟩ := ht.rest
  rw [hsrest, hsrest', ← List.append_assoc] at hfirst
  rw [htrest, htrest', ← List.append_assoc] at hsecond
  have hbefore : first ++ before' = before := List.append_cancel_right hfirst
  refine ⟨first, ?_, ?_⟩
  · rw [hsrest, hsrest', ← hbefore, List.append_assoc]
  · rw [htrest, htrest', ← hbefore, List.append_assoc]

theorem spanSince {s' t' : State} (h : cut.Alike s t) (h' : cut.Alike s' t') (hs : s.Advances s')
    (ht : t.Advances t') : s'.spanSince s.mark = t'.spanSince t.mark := by
  have hconsumed : s.consumed < s'.consumed ↔ t.consumed < t'.consumed := by
    rw [h.consumed, h'.consumed]
    omega
  rw [State.spanSince_mark hs, State.spanSince_mark ht, h.current]
  simp only [hconsumed]
  split
  · rename_i hmore
    rw [State.spanFrom, State.spanFrom, h'.previousEnd (by omega)]
  · rfl

theorem recovered {s' t' : State} (h : cut.Alike s t) (h' : cut.Alike s' t') (hs : s.Advances s')
    (ht : t.Advances t') (inBlock : Bool) :
    cut.Beyond (s'.recovered s.mark inBlock) ∨
      cut.Alike (s'.recovered s.mark inBlock) (t'.recovered t.mark inBlock) := by
  obtain ⟨passed, hsrest, htrest⟩ := h.passed h' hs ht
  have hlength : s'.consumed - s.consumed = passed.length := by
    have hconsumed := hs.consumed
    have hlengths := congrArg List.length hsrest
    rw [List.length_append] at hlengths
    omega
  have hlength' : t'.consumed - t.consumed = passed.length := by
    rw [← hlength, h.consumed, h'.consumed]
    omega
  have hbehind : s.mark.slots.take (s'.consumed - s.mark.index) = passed := by
    show s.rest.take (s'.consumed - s.consumed) = passed
    rw [hlength, hsrest, List.take_left']
    rfl
  have hbehind' : t.mark.slots.take (t'.consumed - t.mark.index) = passed := by
    show t.rest.take (t'.consumed - t.consumed) = passed
    rw [hlength', htrest, List.take_left']
    rfl
  unfold State.recovered
  simp only [hbehind, hbehind']
  rcases h'.pastBroken inBlock (Bracket.owed (passed.map (·.kind))) with hbeyond | hbroken
  · exact .inl hbeyond
  · exact .inr (hbroken.logged _ _)

end Alike

end Cut

end ScriptSyntax
