import ScriptSyntax.Proofs.Parsing.Whole

/-!
Tokens in order.  The tokens of a source lie one behind the other, so the places that a parse comes to lie
behind those that it has been at.
-/

namespace ScriptSyntax

/-- The tokens lie in order between two places, and none of them is empty or the end of the file. -/
def Slot.Ordered (p stop : Position) : List Slot → Prop
  | [] => p.offset ≤ stop.offset
  | slot :: slots =>
      p.offset ≤ slot.token.span.start.offset ∧
        slot.token.span.start.offset < slot.token.span.stop.offset ∧ slot.kind ≠ .endOfFile ∧
        Ordered slot.token.span.stop stop slots

theorem Slot.Ordered.suffix {p stop : Position} {passed slots : List Slot}
    (h : Slot.Ordered p stop (passed ++ slots)) :
    Slot.Ordered (Slot.endAfter p passed) stop slots := by
  induction passed generalizing p with
  | nil => exact h
  | cons slot passed ih => exact ih h.2.2.2

theorem Slot.Ordered.le_endAfter {p stop : Position} {passed slots : List Slot}
    (h : Slot.Ordered p stop (passed ++ slots)) :
    p.offset ≤ (Slot.endAfter p passed).offset := by
  induction passed generalizing p with
  | nil => exact Nat.le_refl _
  | cons slot passed ih =>
      obtain ⟨hstart, hwidth, -, hrest⟩ := h
      have hlater := ih hrest
      change p.offset ≤ (Slot.endAfter slot.token.span.stop passed).offset
      omega

namespace Slot.Ordered

variable {p stop : Position} {passed slots : List Slot} {slot : Slot}

theorem le_stop (h : Slot.Ordered p stop slots) : p.offset ≤ stop.offset := by
  induction slots generalizing p with
  | nil => exact h
  | cons first slots ih =>
      obtain ⟨hstart, hwidth, -, hlater⟩ := h
      have hrest := ih hlater
      omega

theorem of_mem (h : Slot.Ordered p stop slots) (hslot : slot ∈ slots) :
    p.offset ≤ slot.token.span.start.offset ∧
      slot.token.span.start.offset < slot.token.span.stop.offset ∧
      slot.token.span.stop.offset ≤ stop.offset := by
  induction slots generalizing p with
  | nil => exact absurd hslot List.not_mem_nil
  | cons first slots ih =>
      obtain ⟨hstart, hwidth, -, hlater⟩ := h
      rcases List.mem_cons.mp hslot with rfl | hrest
      · exact ⟨hstart, hwidth, hlater.le_stop⟩
      · have hslot := ih hlater hrest
        omega

theorem stop_le_endAfter (h : Slot.Ordered p stop (passed ++ slots)) (hslot : slot ∈ passed) :
    slot.token.span.stop.offset ≤ (Slot.endAfter p passed).offset := by
  induction passed generalizing p with
  | nil => exact absurd hslot List.not_mem_nil
  | cons first passed ih =>
      obtain ⟨-, -, -, hlater⟩ := h
      rcases List.mem_cons.mp hslot with rfl | hrest
      · exact le_endAfter hlater
      · exact ih hlater hrest

end Slot.Ordered

namespace State

/-- The number of bytes before the end of the last token consumed. -/
def behind (s : State) : Nat := s.previousEnd.offset

/-- The number of bytes before the next token. -/
def place (s : State) : Nat := s.current.span.start.offset

/-- The tokens left lie in order behind those consumed; the last token of all ends at `last` and the
file ends at `eof`. -/
structure Bounded (last eof : Nat) (s : State) : Prop where
  ordered : Slot.Ordered s.previousEnd s.endOfFile s.rest
  last : (Slot.endAfter s.previousEnd s.rest).offset = last
  eof : s.endOfFile.offset = eof

variable {last eof : Nat} {s s' : State}

theorem Bounded.of_passes (h : s.Bounded last eof) (hpasses : ∃ passed, s.rest = passed ++ s'.rest ∧
    s'.previousEnd = Slot.endAfter s.previousEnd passed) (hfile : s'.endOfFile = s.endOfFile) :
    s'.Bounded last eof := by
  obtain ⟨passed, hrest, hend⟩ := hpasses
  have hordered := h.ordered
  have hlast := h.last
  rw [hrest] at hordered hlast
  refine ⟨?_, ?_, ?_⟩
  · rw [hend, hfile]
    exact hordered.suffix
  · rw [hend, ← Slot.endAfter_append]
    exact hlast
  · rw [hfile, h.eof]

theorem Bounded.advances (h : s.Bounded last eof) (hadvances : s.Advances s') :
    s'.Bounded last eof :=
  h.of_passes hadvances.passes hadvances.endOfFile

theorem Bounded.opened (h : s.Bounded last eof) (closer : TokenKind) (expressionList : Bool) :
    (s.opened closer expressionList).Bounded last eof :=
  ⟨h.ordered, h.last, h.eof⟩

theorem Bounded.closed (h : s.Bounded last eof) : s.closed.Bounded last eof :=
  ⟨h.ordered, h.last, h.eof⟩

theorem Bounded.rest_of_kind (h : s.Bounded last eof) (hkind : s.kind = .endOfFile) : s.rest = [] := by
  cases hrest : s.rest with
  | nil => rfl
  | cons slot slots =>
      have hordered := h.ordered
      rw [hrest] at hordered
      exact absurd (kind_of_cons hrest ▸ hkind) hordered.2.2.1

theorem Bounded.behind_le_place (h : s.Bounded last eof) : s.behind ≤ s.place := by
  have hordered := h.ordered
  unfold place current slot behind
  cases hrest : s.rest with
  | nil =>
      rw [hrest] at hordered
      exact hordered
  | cons slot slots =>
      rw [hrest] at hordered
      exact hordered.1

theorem Bounded.place_le_stop (h : s.Bounded last eof) :
    s.place ≤ s.current.span.stop.offset := by
  have hordered := h.ordered
  unfold place current slot
  cases hrest : s.rest with
  | nil => exact Nat.le_refl _
  | cons slot slots =>
      rw [hrest] at hordered
      exact Nat.le_of_lt hordered.2.1

theorem Bounded.place_lt_stop (h : s.Bounded last eof) (hkind : s.kind ≠ .endOfFile) :
    s.place < s.current.span.stop.offset := by
  obtain ⟨slot, slots, hrest⟩ := exists_rest_eq_cons hkind
  have hordered := h.ordered
  rw [hrest] at hordered
  simpa [place, current, State.slot, hrest] using hordered.2.1

theorem kind_ne_of_literalKind? {kind : NodeKind} (hkind : Parser.literalKind? s.kind = some kind) :
    s.kind ≠ .endOfFile := by
  intro hend
  simp [hend, Parser.literalKind?] at hkind

theorem kind_ne_of_operandForm? {form : OperandForm} (hkind : s.kind.operandForm? = some form) :
    s.kind ≠ .endOfFile := by
  intro hend
  simp [hend, TokenKind.operandForm?] at hkind

theorem behind_advanced (hkind : s.kind ≠ .endOfFile) :
    s.advanced.behind = s.current.span.stop.offset := by
  rw [behind, Parser.previousEnd_advanced hkind]

theorem Bounded.places (h : s.Bounded last eof) (hadvances : s.Advances s') :
    s'.rest.length = s.rest.length ∧ s'.behind = s.behind ∧ s'.place = s.place ∨
      s.current.span.stop.offset ≤ s'.behind ∧ s.kind ≠ .endOfFile := by
  obtain ⟨passed, hrest, hend⟩ := hadvances.passes
  cases passed with
  | nil =>
      have hlength : s'.rest.length = s.rest.length := by rw [hrest, List.nil_append]
      obtain ⟨hsame, -, -⟩ := hadvances.eq_of_length_eq hlength
      left
      refine ⟨hlength, by rw [behind, hend]; rfl, ?_⟩
      simp only [place, current, slot, hsame, hadvances.endOfFile, hadvances.commentAtEnd]
  | cons slot passed =>
      right
      have hordered := h.ordered
      rw [hrest] at hordered
      have hcurrent : s.slot = slot := slot_of_cons hrest
      refine ⟨?_, ?_⟩
      · rw [behind, hend, current, hcurrent]
        exact Slot.Ordered.le_endAfter hordered.2.2.2
      · rw [kind_of_cons hrest]
        exact hordered.2.2.1

theorem Bounded.behind_le (h : s.Bounded last eof) (hadvances : s.Advances s') :
    s.behind ≤ s'.behind := by
  have hplace := h.behind_le_place
  have hstop := h.place_le_stop
  rcases h.places hadvances with hsame | hmore <;> omega

theorem Bounded.place_le (h : s.Bounded last eof) (hadvances : s.Advances s') :
    s.place ≤ s'.place := by
  have hstop := h.place_le_stop
  have hplace := (h.advances hadvances).behind_le_place
  rcases h.places hadvances with hsame | hmore <;> omega

end State

/-! ### Whole sources -/

theorem Token.Run.ordered {p q start : Position} {tokens : List Token} (h : Token.Run p tokens q)
    (hstart : start.offset ≤ p.offset) (pending : Option Span) :
    Slot.Ordered start q (Slot.significant pending tokens) := by
  induction tokens generalizing p start pending with
  | nil =>
      cases h
      exact hstart
  | cons token tokens ih =>
      have hwidth := h.width
      obtain ⟨hfirst, -, -, hkind, hrest⟩ := h
      rw [← hfirst] at hwidth
      have hlater : start.offset ≤ token.span.stop.offset := by
        rw [← hfirst] at hstart
        omega
      rcases Slot.trivia_cases token.kind with htrivia | htrivia | htrivia
      · rw [Slot.significant_whitespace htrivia]
        exact ih hrest hlater _
      · rw [Slot.significant_comment htrivia]
        exact ih hrest hlater _
      · rw [Slot.significant_token htrivia]
        exact ⟨hfirst ▸ hstart, hwidth, hkind, ih hrest (Nat.le_refl _) _⟩

theorem Slot.endAfter_eq (p : Position) (slots : List Slot) :
    Slot.endAfter p slots = (slots.getLast?.map (·.token.span.stop)).getD p := by
  induction slots generalizing p with
  | nil => rfl
  | cons slot slots ih =>
      rw [Slot.endAfter, List.foldl_cons, ← Slot.endAfter, ih]
      cases slots <;> simp [List.getLast?_cons]

/-- The number of bytes of a source up to the end of its last token, not counting blanks, comments and the
end of the file. -/
def lastTokenEnd (source : String) : Nat :=
  let tokens := (tokenize source).filter fun t => !t.kind.isTrivia && t.kind ≠ .endOfFile
  (tokens.getLast?.map (·.span.stop.offset)).getD 0

theorem significant_tokenize (source : String) :
    (tokenize source).filter (fun t => !t.kind.isTrivia && t.kind ≠ .endOfFile) =
      (Slot.significant none (Scan.lexemes Position.origin source.toList)).map (·.token) := by
  have hkinds := (Scan.run_lexemes Position.origin source.toList).kind_ne
  rw [tokenize, Scan.tokens_eq, List.filter_append]
  have hend : [Token.endOfFile (Position.origin.advancedBy source.toList)].filter
      (fun t => !t.kind.isTrivia && t.kind ≠ .endOfFile) = [] := rfl
  rw [hend, List.append_nil, Slot.map_token_significant]
  refine List.filter_congr fun token htoken => ?_
  simp [hkinds token htoken]

theorem endAfter_significant (source : String) :
    (Slot.endAfter Position.origin
      (Slot.significant none (Scan.lexemes Position.origin source.toList))).offset =
        lastTokenEnd source := by
  rw [Slot.endAfter_eq, lastTokenEnd, significant_tokenize, List.getLast?_map]
  cases (Slot.significant none (Scan.lexemes Position.origin source.toList)).getLast? with
  | none => rfl
  | some slot => rfl

theorem bounded_ofSource (source : String) (options : Options) :
    (State.ofSource source options).Bounded (lastTokenEnd source) source.utf8ByteSize := by
  have hrun := Scan.run_lexemes Position.origin source.toList
  rw [State.ofSource, tokenize, State.ofTokens_lexemes]
  refine ⟨hrun.ordered (Nat.le_refl _) none, endAfter_significant source, ?_⟩
  rw [Text.advancedBy_offset, Text.byteLength_toList]
  simp [Position.origin]

end ScriptSyntax
