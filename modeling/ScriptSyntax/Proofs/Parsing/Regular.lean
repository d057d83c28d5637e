import ScriptSyntax.Proofs.Parsing.Whole
import ScriptSyntax.Proofs.Token.Alone

/-!
The states that the parse of a source goes through.  Every token left is written as its kind asks for and
is that token when it stands alone, and no open bracket is closed by an operator.
-/

namespace ScriptSyntax

/-- The token is one that the tokens of a text have among them. -/
structure Token.Lexed (t : Token) : Prop where
  spelled : t.Spelled
  writes : t.kind.Writes t.text

namespace State

/-- The tokens left are tokens of a text, and no operator closes an open bracket. -/
structure Regular (s : State) : Prop where
  lexed : ∀ slot ∈ s.rest, slot.token.Lexed
  closers : ∀ delimiter ∈ s.delimiters, delimiter.closer.operatorForm? = none

namespace Regular

variable {s s' : State}

theorem advances (h : s.Regular) (hadvances : s.Advances s') : s'.Regular := by
  constructor
  · intro slot hslot
    exact h.lexed slot (hadvances.rest.subset hslot)
  · rw [hadvances.delimiters]
    exact h.closers

theorem advanced (h : s.Regular) : s.advanced.Regular := h.advances s.advances_advanced

theorem pastNewlines (h : s.Regular) : s.pastNewlines.Regular := h.advances s.advances_pastNewlines

theorem opened (h : s.Regular) (closer : TokenKind) (hcloser : closer.operatorForm? = none)
    (expressionList : Bool) : (s.opened closer expressionList).Regular :=
  ⟨h.lexed, List.forall_mem_cons.mpr ⟨hcloser, h.closers⟩⟩

theorem entered (h : s.Regular) : s.entered.Regular := h.advances s.advances_entered

theorem reads (h : s.Regular) {clean : Bool} {part : Part} {nodes : List Node}
    (hreads : Reads clean part nodes s s') : s'.Regular :=
  h.advances hreads.advances

theorem current (h : s.Regular) (hend : s.kind ≠ .endOfFile) : s.current.Lexed := by
  obtain ⟨slot, slots, hrest⟩ := exists_rest_eq_cons hend
  have hcurrent : s.current = slot.token := by rw [State.current, slot_of_cons hrest]
  rw [hcurrent]
  exact h.lexed slot (by simp [hrest])

theorem writes (h : s.Regular) {kind : TokenKind} (hkind : s.kind = kind) (hend : kind ≠ .endOfFile) :
    kind.Writes s.current.text := by
  subst hkind
  exact (h.current hend).writes

theorem text (h : s.Regular) {text : String} (htext : s.kind.spelling? = some text) :
    s.current.text = text := by
  refine (h.current ?_).spelled text htext
  intro hend
  simp [hend, TokenKind.spelling?] at htext

theorem spelling (h : s.Regular) {operator : BindingPower × OperatorForm}
    (hkind : s.kind.operatorForm? = some operator) : s.kind.spelling? = some s.current.text := by
  have hspelling : ∃ text, s.kind.spelling? = some text := by
    unfold TokenKind.operatorForm? at hkind
    split at hkind <;> cases hkind
    all_goals
      rename_i htoken
      rw [htoken]
      exact ⟨_, rfl⟩
  obtain ⟨text, htext⟩ := hspelling
  rw [htext, h.text htext]

theorem operatorForm?_of_atBoundary (h : s.Regular) (hboundary : s.atBoundary) :
    s.kind.operatorForm? = none := by
  unfold State.atBoundary at hboundary
  simp only [Bool.or_eq_true, decide_eq_true_eq] at hboundary
  rcases hboundary with (hseparator | hend) | hcloser
  · unfold TokenKind.isSeparator at hseparator
    split at hseparator
    · rename_i hkind
      rw [hkind]
      rfl
    · rename_i hkind
      rw [hkind]
      rfl
    · cases hseparator
  · rw [hend]
    rfl
  · cases hdelimiters : s.delimiters with
    | nil => simp [hdelimiters] at hcloser
    | cons delimiter outer =>
        have hkind : delimiter.closer = s.kind := by simpa [hdelimiters] using hcloser
        rw [← hkind]
        exact h.closers delimiter (by simp [hdelimiters])

end Regular

/-- A regular state that comes after the state `first`: some of the tokens are behind it, and the others are
left. -/
structure Within (first s : State) : Prop extends s.Regular where
  passes : ∃ passed, first.rest = passed ++ s.rest ∧
    s.previousEnd = Slot.endAfter first.previousEnd passed
  endOfFile : s.endOfFile = first.endOfFile

theorem Regular.within {s : State} (h : s.Regular) : s.Within s :=
  ⟨h, ⟨[], rfl, rfl⟩, rfl⟩

namespace Within

variable {first s s' : State}

theorem advances (h : first.Within s) (hadvances : s.Advances s') : first.Within s' := by
  refine ⟨h.toRegular.advances hadvances, ?_, hadvances.endOfFile.trans h.endOfFile⟩
  obtain ⟨passed, hrest, hend⟩ := h.passes
  obtain ⟨passed', hrest', hend'⟩ := hadvances.passes
  refine ⟨passed ++ passed', ?_, ?_⟩
  · rw [hrest, hrest', List.append_assoc]
  · rw [hend', hend, Slot.endAfter_append]

theorem advanced (h : first.Within s) : first.Within s.advanced := h.advances s.advances_advanced

theorem pastNewlines (h : first.Within s) : first.Within s.pastNewlines :=
  h.advances s.advances_pastNewlines

theorem pastSeparators (h : first.Within s) : first.Within s.pastSeparators :=
  h.advances s.advances_pastSeparators

theorem recovered (h : first.Within s) (mark : Mark) (inBlock : Bool) :
    first.Within (s.recovered mark inBlock) :=
  h.advances (s.advances_recovered mark inBlock)

theorem opened (h : first.Within s) (closer : TokenKind) (hcloser : closer.operatorForm? = none)
    (expressionList : Bool) : first.Within (s.opened closer expressionList) :=
  ⟨h.toRegular.opened closer hcloser expressionList, h.passes, h.endOfFile⟩

theorem entered (h : first.Within s) : first.Within s.entered := h.advances s.advances_entered

theorem reported (h : first.Within s) (d : Diagnostic) : first.Within (s.reported d) :=
  h.advances (s.advances_reported d)

theorem begun (h : first.Within s) : first.Within s.begun := h.advances s.advances_begun

theorem words (h : first.Within s) {isAsync : Bool} (hwords : FunctionWords s isAsync s') :
    first.Within s' :=
  h.advances hwords.advances

theorem reads (h : first.Within s) {clean : Bool} {part : Part} {nodes : List Node}
    (hreads : Reads clean part nodes s s') : first.Within s' :=
  h.advances hreads.advances

end Within

theorem regular_ofSource (source : String) (options : Options) :
    (State.ofSource source options).Regular := by
  constructor
  · intro slot hslot
    rw [rest_ofSource] at hslot
    have hlexeme := Slot.token_mem hslot
    exact ⟨Scan.spelled_lexemes _ _ _ hlexeme, Scan.writes_lexemes _ _ _ hlexeme⟩
  · rw [State.ofSource, tokenize, State.ofTokens_lexemes]
    exact List.forall_mem_nil _

end State

end ScriptSyntax
