import ScriptSyntax.Proofs.Parsing.Clean
import ScriptSyntax.Proofs.Parsing.Rounds

/-!
A statement without errors leaves the newline behind it.  Newlines are skipped inside of a form only, where
something has to follow, so what is read without an error never ends with one.
-/

namespace ScriptSyntax

def State.EndsInNewline (s : State) : Prop :=
  ∃ before slot, s.rest = before ++ [slot] ∧ slot.kind = .newline

namespace State.EndsInNewline

variable {s s' : State}

theorem advanced (h : s.EndsInNewline) {kind : TokenKind} (hkind : s.kind = kind)
    (hother : kind ≠ .newline) : s.advanced.EndsInNewline := by
  obtain ⟨before, slot, hrest, hslot⟩ := h
  cases before with
  | nil =>
      rw [kind_of_cons hrest, hslot] at hkind
      exact absurd hkind.symm hother
  | cons first before => exact ⟨before, slot, rest_advanced hrest, hslot⟩

theorem of_kind (h : s.EndsInNewline) (hahead : s'.rest <:+ s.rest) (hmore : s'.kind ≠ .endOfFile) :
    s'.EndsInNewline := by
  obtain ⟨before, slot, hrest, hslot⟩ := h
  obtain ⟨passed, hpassed⟩ := hahead
  rcases List.eq_nil_or_concat s'.rest with hnone | ⟨later, last, hlast⟩
  · exact absurd (kind_of_nil hnone) hmore
  · rw [List.concat_eq_append] at hlast
    rw [hlast, hrest, ← List.append_assoc] at hpassed
    obtain ⟨-, hsame⟩ := List.append_inj' hpassed rfl
    obtain rfl : last = slot := List.singleton_inj.mp hsame
    exact ⟨later, last, hlast, hslot⟩

theorem past (h : s.EndsInNewline) (hahead : s'.rest <:+ s.rest) {kind : TokenKind}
    (hkind : s'.kind = kind) (hmore : kind ≠ .endOfFile) (hother : kind ≠ .newline) :
    s'.advanced.EndsInNewline :=
  (h.of_kind hahead (kind_ne_of_eq hkind hmore)).advanced hkind hother

end State.EndsInNewline

/-- The part ends with a token of its own. -/
def Part.Closes : Part → Prop
  | list _ closer _ _ => closer.isCloser
  | more _ | statements _ | members _ => False
  | _ => True

theorem State.closes_statementPart (s : State) : s.statementPart.Closes := by
  unfold State.statementPart
  repeat' split
  all_goals trivial

theorem TokenKind.ne_of_isCloser {kind : TokenKind} (h : kind.isCloser) :
    kind ≠ .endOfFile ∧ kind ≠ .newline := by
  constructor
  · rintro rfl
    cases h
  · rintro rfl
    cases h

namespace Reads

variable {part : Part} {nodes : List Node} {power : BindingPower} {item : Item} {s s' : State}

theorem kind_ne_of_expression (h : Reads true (.expression power) nodes s s') : s.kind ≠ .endOfFile := by
  cases h with
  | gap _ _ _ herror => cases herror
  | expression _ hform =>
      intro hend
      rw [hend] at hform
      cases hform

theorem kind_ne_of_clause {isElse : Bool} (h : Reads true (.clause isElse) nodes s s') :
    s.kind ≠ .endOfFile := by
  cases h with
  | elseClause hkind => exact State.kind_ne_of_eq hkind nofun
  | elifClause hkind => exact State.kind_ne_of_eq hkind nofun

/-- What is read without errors leaves the last newline behind it. -/
theorem endsInNewline (h : Reads true part nodes s s') (hs : s.EndsInNewline) (hpart : part.Closes) :
    s'.EndsInNewline := by
  induction h with
  | expression _ _ _ _ ihleft ihclimb => exact ihclimb (ihleft hs trivial) trivial
  | climbStop => exact hs
  | climbFold _ _ _ _ ihfolded ihclimb => exact ihclimb (ihfolded hs trivial) trivial
  | literal hkind =>
      refine hs.advanced rfl ?_
      rintro hnewline
      rw [hnewline] at hkind
      cases hkind
  | name hkind => exact hs.advanced hkind nofun
  | call hkind _ ihvalues => exact ihvalues (hs.advanced hkind nofun) rfl
  | array _ ihelements => exact ihelements hs rfl
  | object _ ihentries => exact ihentries hs rfl
  | lambda hkind _ _ ihparameters ihbody =>
      exact ihbody (ihparameters (hs.advanced hkind nofun) trivial) trivial
  | @macroCall values s s' hsigil hname _ ihvalues =>
      exact ihvalues (hs.past s.advances_advanced.rest hname nofun nofun) rfl
  | awaitExpr hkind _ ihoperand => exact ihoperand (hs.advanced hkind nofun) trivial
  | @bang operand s s' hkind hoperand ihoperand =>
      exact ihoperand (hs.of_kind s.advances_advanced.rest hoperand.kind_ne_of_expression) trivial
  | @operation next left right form s s' _ _ hright ihright =>
      exact ihright (hs.of_kind s.advances_advanced_pastNewlines.rest hright.kind_ne_of_expression) trivial
  | @subscript next left index s s₁ hkind hindex hclosing =>
      have hahead := (hindex.advances.trans s₁.advances_pastNewlines).bracketLines
      exact hs.past hahead.rest hclosing nofun nofun
  | identifier hkind => exact hs.advanced hkind nofun
  | @entry value s s' hkind hcolon hvalue ihvalue =>
      have hahead := s.advances_advanced.trans s.advanced.advances_advanced_pastNewlines
      exact ihvalue (hs.of_kind hahead.rest hvalue.kind_ne_of_expression) trivial
  | emptyList _ hcloser =>
      obtain ⟨hmore, hother⟩ := TokenKind.ne_of_isCloser hpart
      exact hs.past (State.Advances.refl _).bracketLines.rest hcloser hmore hother
  | @items opener closer expressionList item first rest s s₁ s₂ _ hfirst hrest hcloser =>
      obtain ⟨hmore, hother⟩ := TokenKind.ne_of_isCloser hpart
      have hahead := (hfirst.advances.trans (s₁.advances_pastNewlines.trans hrest.advances)).bracketLines
      exact hs.past hahead.rest hcloser hmore hother
  | parameters _ ihnames => exact ihnames hs rfl
  | @block body s s₁ _ _ hbody hclosing =>
      have hahead : s.entered.Advances s₁.closed := State.Advances.bracket hbody.advances
      have hkind : s₁.closed.kind = .rightBrace := hclosing
      exact hs.past hahead.rest hkind nofun nofun
  | statement _ ihform => exact ihform hs (State.closes_statementPart _)
  | bare _ _ ihvalue => exact ihvalue hs trivial
  | @assign kind target value s s₁ s₂ _ _ hvalue _ ihtarget ihvalue =>
      have hs₁ := ihtarget hs trivial
      exact ihvalue (hs₁.of_kind s₁.advances_advanced.rest hvalue.kind_ne_of_expression) trivial
  | functionDecl hwords hname _ _ ihparameters ihbody =>
      exact ihbody (ihparameters (hs.past hwords.advances.rest hname nofun nofun) trivial) trivial
  | @macroDecl parameters body s s₁ s₂ _ hname _ _ ihparameters ihbody =>
      exact ihbody (ihparameters (hs.past s.advances_advanced.rest hname nofun nofun) trivial) trivial
  | @structDecl members s s₁ _ _ _ hmembers hclosing =>
      have hinside : s.advanced.advanced.Advances s₁.closed := State.Advances.bracket hmembers.advances
      have hahead := s.advances_advanced_twice.trans hinside
      have hkind : s₁.closed.kind = .rightBrace := hclosing
      exact hs.past hahead.rest hkind nofun nofun
  | method _ _ ihform => exact ihform hs trivial
  | earlyField _ ihfield => exact ihfield hs trivial
  | @field value s s' _ hassign _ ihvalue =>
      exact ihvalue (hs.past s.advances_advanced.rest hassign nofun nofun) trivial
  | importPath hkind _ _ ihpath => exact ihpath (hs.advanced hkind nofun) trivial
  | @importAs path s s₁ _ hpath _ hname =>
      have hahead := s.advances_advanced.trans (hpath.advances.trans s₁.advances_advanced)
      exact hs.past hahead.rest hname nofun nofun
  | @importNames names path s s₁ s₂ _ hnames _ hfrom _ _ ihpath =>
      have hahead := s.advances_advanced.trans hnames.advances
      exact ihpath (hs.past hahead.rest hfrom nofun nofun) trivial
  | @knownPath parts s s' _ hcolon _ _ ihparts =>
      exact ihparts (hs.past s.advances_advanced.rest hcolon nofun nofun) trivial
  | address hkind => exact hs.advanced hkind nofun
  | segments hkind _ ihrest => exact ihrest (hs.advanced hkind nofun) trivial
  | noMoreSegments => exact hs
  | @moreSegments rest s s' _ hname _ ihrest =>
      exact ihrest (hs.past s.advances_advanced.rest hname nofun nofun) trivial
  | forStmt hkind _ _ ihcondition ihbody =>
      exact ihbody (ihcondition (hs.advanced hkind nofun) trivial) trivial
  | ifStmt hkind _ _ _ ihcondition ihbody ihclauses =>
      exact ihclauses (ihbody (ihcondition (hs.advanced hkind nofun) trivial) trivial) trivial
  | noClauses => exact hs
  | @clauses isElse node rest s s₁ s₂ _ hnode _ ihnode ihrest =>
      exact ihrest (ihnode (hs.of_kind s.advances_pastNewlines.rest hnode.kind_ne_of_clause) trivial) trivial
  | elseClause hkind _ ihbody => exact ihbody (hs.advanced hkind nofun) trivial
  | elifClause hkind _ _ ihcondition ihbody =>
      exact ihbody (ihcondition (hs.advanced hkind nofun) trivial) trivial
  | bareReturn hkind => exact hs.advanced hkind nofun
  | returnStmt hkind _ _ ihvalue => exact ihvalue (hs.advanced hkind nofun) trivial
  -- further items, statements and members may end with newlines, but a closing bracket follows
  | noMore | more | noStatements | whole | noMembers | members => exact hpart.elim
  | gap _ _ _ herror | lexicalError _ herror | misassign _ _ _ _ herror | lateField _ herror
  | unknownPath _ _ _ _ herror | lateClause _ _ _ herror | openBlock _ _ _ _ herror
  | joined _ _ _ _ herror | broken _ _ _ herror => cases herror

end Reads

theorem Parser.Rounds.endsInNewline {nodes : List Node} {s s' : State} (h : Rounds nodes s s')
    (hquiet : s.Quiet s') (hs : s.EndsInNewline) : s'.EndsInNewline := by
  induction h with
  | none => exact hs
  | @round nodes more s s₁ s₂ hmore hround hrest ih =>
      have hbefore := s.advances_pastSeparators
      have hnext : s.pastSeparators.kind ≠ .endOfFile := by
        intro hend
        simp [atListEnd, hend] at hmore
      have hs := hs.of_kind hbefore.rest hnext
      cases rounded_of_statementRound hround with
      | whole hstatement =>
          have hreads := reads_of_statement hstatement
          have hfirst := hreads.of_quiet (hquiet.within hbefore hrest.advances)
          exact ih (hquiet.behind (hbefore.trans hreads.advances))
            (hfirst.endsInNewline hs trivial)
      | @joined node middle _ hstatement _ hrecovered =>
          subst hrecovered
          have hstart := hbefore.trans (Forward.advances_of_ok _ hstatement)
          have hend := (State.advances_recovered _ _ _).trans hrest.advances
          exact absurd hquiet (State.not_quiet_of_reported hstart hend)
      | @broken e middle _ hstatement hrecovered =>
          subst hrecovered
          have hstart := hbefore.trans (Forward.advances_of_error _ hstatement)
          have hend := (State.advances_recovered _ _ _).trans hrest.advances
          exact absurd hquiet (State.not_quiet_of_reported hstart hend)

end ScriptSyntax
