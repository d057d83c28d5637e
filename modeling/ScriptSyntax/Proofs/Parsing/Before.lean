import ScriptSyntax.Proofs.Parsing.Grammar
import ScriptSyntax.Proofs.Parsing.Whole
import ScriptSyntax.Proofs.Token.Words

/-!
States before known words.  A state with nothing reported whose tokens are given words moves over them
one by one.
-/

namespace ScriptSyntax

/-- The tokens left are the words, with no comments between them, and nothing is reported. -/
structure State.Before (s : State) (words : List String) : Prop where
  shows : List.Forall₂ Slot.Shows s.rest words
  reports : s.reports = []

namespace State.Before

variable {s : State} {word : String} {words : List String}

theorem kind (h : s.Before words) : s.kind = TokenKind.ofWords words := by
  obtain ⟨hshows, -⟩ := h
  cases hrest : s.rest with
  | nil =>
      rw [hrest] at hshows
      cases hshows
      exact kind_of_nil hrest
  | cons slot slots =>
      rw [hrest] at hshows
      cases hshows with
      | cons hslot _ => rw [kind_of_cons hrest, hslot.kind, TokenKind.ofWords]

theorem kind_eq {kind : TokenKind} (h : s.Before (word :: words)) (hkind : kind.Writes word) :
    s.kind = kind := by
  rw [h.kind, TokenKind.ofWords, hkind.ofWord]

theorem kind_spelled {kind : TokenKind} (h : s.Before (word :: words))
    (hword : kind.spelling? = some word) : s.kind = kind :=
  h.kind_eq (TokenKind.writes_of_spelling? hword)

theorem text (h : s.Before (word :: words)) : s.current.text = word := by
  obtain ⟨hshows, -⟩ := h
  cases hrest : s.rest with
  | nil =>
      rw [hrest] at hshows
      cases hshows
  | cons slot slots =>
      rw [hrest] at hshows
      cases hshows with
      | cons hslot _ => rw [current, slot_of_cons hrest, hslot.text]

theorem advanced (h : s.Before (word :: words)) : s.advanced.Before words := by
  obtain ⟨hshows, hreports⟩ := h
  cases hrest : s.rest with
  | nil =>
      rw [hrest] at hshows
      cases hshows
  | cons slot slots =>
      rw [hrest] at hshows
      cases hshows with
      | cons hslot hslots =>
          constructor
          · rw [rest_advanced hrest]
            exact hslots
          · have hnoted : s.noted slot = s := by
              rw [noted, hslot.commentBefore]
            show s.advanced.reports = []
            unfold State.advanced
            rw [hrest]
            simp only [hnoted]
            exact hreports

theorem entered (h : s.Before words) : s.entered.Before words := ⟨h.shows, h.reports⟩

theorem leaving (h : s.Before words) (depth : Nat) : (s.leaving depth).Before words :=
  ⟨h.shows, h.reports⟩

theorem opened (h : s.Before words) (closer : TokenKind) (expressionList : Bool) :
    (s.opened closer expressionList).Before words :=
  ⟨h.shows, h.reports⟩

theorem closed (h : s.Before words) : s.closed.Before words := ⟨h.shows, h.reports⟩

theorem begun (h : s.Before words) : s.begun.Before words := ⟨h.shows, h.reports⟩

theorem pastNewlines (h : s.Before words) (hword : TokenKind.ofWords words ≠ .newline) :
    s.pastNewlines = s := by
  refine pastWhile_eq_self ?_
  rw [h.kind]
  simpa using hword

theorem pastSeparators (h : s.Before words)
    (hword : (TokenKind.ofWords words).isSeparator = false) : s.pastSeparators = s := by
  refine pastWhile_eq_self ?_
  rw [h.kind]
  exact hword

theorem pastNewlines_begins {after : List String} (h : s.Before (words ++ after))
    (hwords : BeginsWith words (·.isSeparator = false)) : s.pastNewlines = s := by
  refine h.pastNewlines fun hnewline => ?_
  have hfirst := (hwords.append after).ofWords
  rw [hnewline] at hfirst
  cases hfirst

theorem pastNewlines_newline (h : s.Before ("\n" :: words))
    (hword : TokenKind.ofWords words ≠ .newline) : s.pastNewlines.Before words := by
  have hkind := h.kind_eq TokenKind.writes_newline
  have hpast : s.pastNewlines = s.advanced.pastNewlines :=
    pastWhile_eq_advanced rfl (by simp [hkind])
  rw [hpast, h.advanced.pastNewlines hword]
  exact h.advanced

theorem pastSeparators_newline (h : s.Before ("\n" :: words))
    (hword : (TokenKind.ofWords words).isSeparator = false) : s.pastSeparators.Before words := by
  have hkind := h.kind_eq TokenKind.writes_newline
  have hpast : s.pastSeparators = s.advanced.pastSeparators :=
    pastWhile_eq_advanced rfl (by rw [hkind]; rfl)
  rw [hpast, h.advanced.pastSeparators hword]
  exact h.advanced

theorem kind_peek {next : String} (h : s.Before (word :: next :: words)) :
    (s.peek 1).kind = TokenKind.ofWord next := by
  obtain ⟨hshows, -⟩ := h
  cases hrest : s.rest with
  | nil =>
      rw [hrest] at hshows
      cases hshows
  | cons slot slots =>
      rw [hrest] at hshows
      cases hshows with
      | cons _ hslots =>
          cases hslots with
          | @cons later _ _ _ hlater _ =>
              rw [peek, hrest]
              exact hlater.kind

end State.Before

end ScriptSyntax
