import ScriptSyntax.Proofs.Parsing.Grammar

/-!
Derivations without errors.  What is read without a new error is read by the rules that report none,
`Reads.of_quiet`, so the properties of scripts without errors are shown by induction on those rules alone.
-/

namespace ScriptSyntax

namespace State

def errorCount (s : State) : Nat := (s.reports.filter (·.isError)).length

variable {s t t' s' : State}

theorem Advances.errorCount_le (h : s.Advances s') : s.errorCount ≤ s'.errorCount :=
  (h.reports.sublist.filter _).length_le

theorem errorCount_reported (s : State) {d : Diagnostic} (hd : d.isError) :
    (s.reported d).errorCount = s.errorCount + 1 := by
  simp [errorCount, reported, hd]

theorem errorCount_reported_ofError (s : State) (e : SyntaxError) :
    (s.reported (.ofError e)).errorCount = s.errorCount + 1 :=
  s.errorCount_reported rfl

/-- No error was reported between two states. -/
def Quiet (s s' : State) : Prop := s'.errorCount ≤ s.errorCount

theorem Quiet.within (h : s.Quiet s') (hbefore : s.Advances t) (hafter : t'.Advances s') : t.Quiet t' :=
  Nat.le_trans hafter.errorCount_le (Nat.le_trans h hbefore.errorCount_le)

theorem Quiet.behind (h : s.Quiet s') (hbefore : s.Advances t) : t.Quiet s' :=
  h.within hbefore (.refl s')

theorem Quiet.inside {closer : TokenKind} {expressionList : Bool} (h : s.Quiet s') :
    (s.advanced.opened closer expressionList).Quiet s' := by
  show s.advanced.Quiet s'
  exact h.behind s.advances_advanced

theorem not_quiet_of_reported {e : SyntaxError} (hbefore : s.Advances t)
    (hafter : (t.reported (.ofError e)).Advances s') : ¬s.Quiet s' := by
  intro h
  have hreported := t.errorCount_reported_ofError e
  have hquiet : s'.errorCount ≤ s.errorCount := h
  have hbefore := hbefore.errorCount_le
  have hafter := hafter.errorCount_le
  omega

end State

theorem isError_gapDiagnostic (s : State) : s.gapDiagnostic.isError := by
  unfold State.gapDiagnostic
  split <;> rfl

variable {part : Part} {nodes : List Node} {s s' : State}

/-- What is read without a new error is read by the rules that report none. -/
theorem Reads.of_quiet (h : Reads false part nodes s s') (hquiet : s.Quiet s') :
    Reads true part nodes s s' := by
  induction h with
  | @gap power s hdepth hform hboundary =>
      -- a gap is reported, so there would be one error more than there is
      have hreported := s.errorCount_reported (isError_gapDiagnostic s)
      have hcount : (s.reported s.gapDiagnostic).errorCount ≤ s.errorCount := hquiet
      omega
  | @expression power form left node s s₁ s₂ hdepth hform hleft hclimb ihleft ihclimb =>
      have hinside : s.entered.Quiet s₂ := hquiet
      exact .expression hdepth hform (ihleft (hinside.within (.refl _) hclimb.advances))
        (ihclimb (hinside.behind hleft.advances))
  | climbStop hpending => exact .climbStop hpending
  | @climbFold power next form left folded node s s₁ s₂ hpending hdepth hfolded hclimb ihfolded ihclimb =>
      have hinside : s.entered.Quiet s₂ := hquiet
      exact .climbFold hpending hdepth (ihfolded (hinside.within (.refl _) hclimb.advances))
        (ihclimb (hinside.behind hfolded.advances))
  | literal hkind => exact .literal hkind
  | name hkind hparen => exact .name hkind hparen
  | call hkind _ ih => exact .call hkind (ih (hquiet.behind (State.advances_advanced _)))
  | array _ ih => exact .array (ih hquiet)
  | object _ ih => exact .object (ih hquiet)
  | @lambda parameters body s _ _ hkind hparameters hbody ihparameters ihbody =>
      exact .lambda hkind (ihparameters (hquiet.within s.advances_advanced hbody.advances))
        (ihbody (hquiet.behind (s.advances_advanced.trans hparameters.advances)))
  | macroCall hsigil hname _ ih =>
      exact .macroCall hsigil hname (ih (hquiet.behind (State.advances_advanced_twice _)))
  | awaitExpr hkind _ ih => exact .awaitExpr hkind (ih (hquiet.behind (State.advances_advanced _)))
  | bang hkind _ ih => exact .bang hkind (ih (hquiet.behind (State.advances_advanced _)))
  | @lexicalError e s =>
      exact absurd hquiet (State.not_quiet_of_reported s.advances_advanced (.refl _))
  | operation hform hkind _ ih =>
      exact .operation hform hkind (ih (hquiet.behind (State.advances_advanced_pastNewlines _)))
  | @subscript next left index s s₁ hkind _ hclosing ih =>
      have hinside : (s.advanced.opened .rightBracket true).Quiet s₁.pastNewlines.advanced :=
        .inside hquiet
      exact .subscript hkind (ih (hinside.within (State.advances_pastNewlines _)
        s₁.advances_pastNewlines_advanced)) hclosing
  | identifier hkind => exact .identifier hkind
  | @entry value s s' hkind hcolon _ ih =>
      have hskip := s.advances_advanced.trans s.advanced.advances_advanced_pastNewlines
      exact .entry hkind hcolon (ih (hquiet.behind hskip))
  | emptyList hopener hcloser => exact .emptyList hopener hcloser
  | @items opener closer expressionList item first rest s s₁ s₂ hopener hfirst hrest hcloser ihfirst
      ihrest =>
      have hinside : (s.advanced.opened closer expressionList).Quiet s₂.advanced := .inside hquiet
      have hskip := (s.advanced.opened closer expressionList).advances_pastNewlines
      have hbehind := s₁.advances_pastNewlines.trans (hrest.advances.trans s₂.advances_advanced)
      have hbefore := hskip.trans (hfirst.advances.trans s₁.advances_pastNewlines)
      exact .items hopener (ihfirst (hinside.within hskip hbehind))
        (ihrest (hinside.within hbefore s₂.advances_advanced)) hcloser
  | noMore hkind => exact .noMore hkind
  | @more item next rest s s₁ s₂ hkind hnext hrest ihnext ihrest =>
      have hskip := s.advances_advanced_pastNewlines
      have hbefore := hskip.trans (hnext.advances.trans s₁.advances_pastNewlines)
      exact .more hkind (ihnext (hquiet.within hskip (s₁.advances_pastNewlines.trans hrest.advances)))
        (ihrest (hquiet.behind hbefore))
  | parameters _ ih => exact .parameters (ih hquiet)
  | @block body s s₁ hdepth hopener _ hclosing ih =>
      have hentered : s.entered.Quiet s₁.closed.advanced := hquiet
      have hinside := hentered.within (.refl _) s₁.closed.advances_advanced
      exact .block hdepth hopener (ih hinside.inside) hclosing
  | @openBlock body s s₁ hdepth hopener hbody =>
      have hentered : s.entered.Quiet (s₁.closed.reported (.ofError ⟨_, s.current.span⟩)) := hquiet
      exact absurd hentered (State.not_quiet_of_reported (.bracket hbody.advances) (.refl _))
  | noStatements hend => exact .noStatements hend
  | @whole inBlock node rest s _ _ hmore hstatement hseparated hrest ihstatement ihrest =>
      exact .whole hmore (ihstatement (hquiet.within s.advances_pastSeparators hrest.advances)) hseparated
        (ihrest (hquiet.behind (s.advances_pastSeparators.trans hstatement.advances)))
  | @joined inBlock node rest s s₁ s₂ s₃ _ hstatement _ hrecovered _ hrest =>
      subst hrecovered
      exact absurd hquiet (State.not_quiet_of_reported
        (s.advances_pastSeparators.trans hstatement.advances)
        ((State.advances_recovered _ _ _).trans hrest.advances))
  | @broken inBlock levels e rest s s₁ s₂ s₃ _ hstatement hrecovered _ hrest =>
      subst hrecovered
      have hfailed := Parser.Forward.advances_of_error _ hstatement
      exact absurd hquiet (State.not_quiet_of_reported (s.advances_pastSeparators.trans hfailed)
        ((State.advances_recovered _ _ _).trans hrest.advances))
  | statement _ ih => exact .statement (ih (hquiet.behind (State.advances_begun _)))
  | bare _ hkind ih => exact .bare (ih hquiet) hkind
  | @assign kind target value s s₁ s₂ htarget hkind hvalue hvalid ihtarget ihvalue =>
      exact .assign (ihtarget (hquiet.within (.refl s) (s₁.advances_advanced.trans hvalue.advances))) hkind
        (ihvalue (hquiet.behind (htarget.advances.trans s₁.advances_advanced))) hvalid
  | @misassign kind target value s s₁ s₂ htarget hkind hvalue =>
      have hbefore := htarget.advances.trans (s₁.advances_advanced.trans hvalue.advances)
      exact absurd hquiet (State.not_quiet_of_reported hbefore (.refl _))
  | @functionDecl isAsync parameters body s s₁ s₂ s₃ hwords hname hparameters hbody ihparameters
      ihbody =>
      have hskip := hwords.advances.trans s₁.advances_advanced
      exact .functionDecl hwords hname (ihparameters (hquiet.within hskip hbody.advances))
        (ihbody (hquiet.behind (hskip.trans hparameters.advances)))
  | @macroDecl parameters body s s₁ s₂ hkind hname hparameters hbody ihparameters ihbody =>
      have hskip := s.advances_advanced_twice
      exact .macroDecl hkind hname (ihparameters (hquiet.within hskip hbody.advances))
        (ihbody (hquiet.behind (hskip.trans hparameters.advances)))
  | @structDecl members s s₁ hkind hname hopener _ hclosing ih =>
      have hinside := hquiet.within s.advances_advanced_twice s₁.closed.advances_advanced
      exact .structDecl hkind hname hopener (ih hinside.inside) hclosing
  | noMembers hkind => exact .noMembers hkind
  | @members seenMethod isMethod node rest s s₁ s₂ hmember hend hrest ihmember ihrest =>
      exact .members (ihmember (hquiet.within s.advances_pastSeparators hrest.advances)) hend
        (ihrest (hquiet.behind (s.advances_pastSeparators.trans hmember.advances)))
  | method hkind _ ih => exact .method hkind (ih hquiet)
  | earlyField _ ih => exact .earlyField (ih hquiet)
  | lateField hfield => exact absurd hquiet (State.not_quiet_of_reported hfield.advances (.refl _))
  | field hkind hassign _ ih =>
      exact .field hkind hassign (ih (hquiet.behind (State.advances_advanced_twice _)))
  | importPath hkind _ has ih =>
      exact .importPath hkind (ih (hquiet.behind (State.advances_advanced _))) has
  | @importAs path s s₁ hkind _ has hname ih =>
      exact .importAs hkind (ih (hquiet.within s.advances_advanced s₁.advances_advanced_twice)) has hname
  | @importNames names path s s₁ s₂ hkind hnames hsome hfrom hpath ihnames ihpath =>
      have hbehind := s₁.advances_advanced.trans hpath.advances
      have hbefore := s.advances_advanced.trans (hnames.advances.trans s₁.advances_advanced)
      exact .importNames hkind (ihnames (hquiet.within s.advances_advanced hbehind)) hsome hfrom
        (ihpath (hquiet.behind hbefore))
  | knownPath hkind hcolon _ hscheme ih =>
      exact .knownPath hkind hcolon (ih (hquiet.behind (State.advances_advanced_twice _))) hscheme
  | @unknownPath parts s s' hkind hcolon hparts =>
      exact absurd hquiet
        (State.not_quiet_of_reported (s.advances_advanced_twice.trans hparts.advances) (.refl _))
  | address hkind => exact .address hkind
  | segments hkind _ ih => exact .segments hkind (ih (hquiet.behind (State.advances_advanced _)))
  | noMoreSegments hkind => exact .noMoreSegments hkind
  | moreSegments hkind hname _ ih =>
      exact .moreSegments hkind hname (ih (hquiet.behind (State.advances_advanced_twice _)))
  | @forStmt condition body s s₁ s₂ hkind hcondition hbody ihcondition ihbody =>
      exact .forStmt hkind (ihcondition (hquiet.within s.advances_advanced hbody.advances))
        (ihbody (hquiet.behind (s.advances_advanced.trans hcondition.advances)))
  | @ifStmt condition body clauses s s₁ s₂ s₃ hkind hcondition hbody hclauses ihcondition ihbody
      ihclauses =>
      have hskip := s.advances_advanced.trans hcondition.advances
      exact .ifStmt hkind
        (ihcondition (hquiet.within s.advances_advanced (hbody.advances.trans hclauses.advances)))
        (ihbody (hquiet.within hskip hclauses.advances))
        (ihclauses (hquiet.behind (hskip.trans hbody.advances)))
  | noClauses hclause => exact .noClauses hclause
  | @clauses isElse node rest s s₁ s₂ hclause hnode hrest ihnode ihrest =>
      exact .clauses hclause (ihnode (hquiet.within s.advances_pastNewlines hrest.advances))
        (ihrest (hquiet.behind (s.advances_pastNewlines.trans hnode.advances)))
  | @lateClause isElse node rest s s₁ s₂ hclause hnode hrest =>
      exact absurd hquiet
        (State.not_quiet_of_reported (s.advances_pastNewlines.trans hnode.advances) hrest.advances)
  | elseClause hkind _ ih => exact .elseClause hkind (ih (hquiet.behind (State.advances_advanced _)))
  | @elifClause condition body s s₁ s₂ hkind hcondition hbody ihcondition ihbody =>
      exact .elifClause hkind (ihcondition (hquiet.within s.advances_advanced hbody.advances))
        (ihbody (hquiet.behind (s.advances_advanced.trans hcondition.advances)))
  | bareReturn hkind hend => exact .bareReturn hkind hend
  | returnStmt hkind hend _ ih =>
      exact .returnStmt hkind hend (ih (hquiet.behind (State.advances_advanced _)))

theorem Reads.kind_of_path {path : Node} (h : Reads true .path [path] s s') :
    path.kind = .importPath := by
  cases h with
  | knownPath => rfl
  | unknownPath _ _ _ _ herror => cases herror

theorem Reads.kind_of_names {opener closer : TokenKind} {expressionList : Bool}
    (h : Reads true (.list opener closer expressionList .name) nodes s s') (hsome : nodes ≠ []) :
    ∃ first rest, nodes = first :: rest ∧ first.kind = .identifier := by
  cases h with
  | emptyList => exact absurd rfl hsome
  | items _ hfirst =>
      cases hfirst with
      | identifier => exact ⟨_, _, rfl, rfl⟩

end ScriptSyntax
