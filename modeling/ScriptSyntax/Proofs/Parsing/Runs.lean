import ScriptSyntax.Proofs.Parsing.Clean
import ScriptSyntax.Proofs.Parsing.Steps
import ScriptSyntax.Proofs.Parsing.Whole

/-!
The grammar is what the parser does: with `runs_of_reads`, what the rules without errors derive is what the
steps of a parse give.
-/

namespace ScriptSyntax

namespace State

@[simp] theorem depth_noted (s : State) (slot : Slot) : (s.noted slot).depth = s.depth := by
  unfold noted reported
  split
  · split <;> rfl
  · rfl

@[simp] theorem depth_advanced (s : State) : s.advanced.depth = s.depth := by
  unfold advanced
  split
  · rfl
  · exact depth_noted s _

theorem depth_pastWhile (p : TokenKind → Bool) (slots : List Slot) (s : State) :
    (pastWhile p slots s).depth = s.depth := by
  induction slots generalizing s with
  | nil => rfl
  | cons slot slots ih =>
      unfold pastWhile
      split
      · rw [ih, depth_advanced]
      · rfl

@[simp] theorem depth_pastNewlines (s : State) : s.pastNewlines.depth = s.depth :=
  depth_pastWhile _ _ s

@[simp] theorem depth_pastSeparators (s : State) : s.pastSeparators.depth = s.depth :=
  depth_pastWhile _ _ s

@[simp] theorem depth_opened (s : State) (closer : TokenKind) (expressionList : Bool) :
    (s.opened closer expressionList).depth = s.depth := rfl

@[simp] theorem depth_closed (s : State) : s.closed.depth = s.depth := rfl

@[simp] theorem depth_entered (s : State) : s.entered.depth = s.depth + 1 := rfl

@[simp] theorem depth_leaving (s : State) (depth : Nat) : (s.leaving depth).depth = depth := rfl

@[simp] theorem depth_reported (s : State) (d : Diagnostic) : (s.reported d).depth = s.depth := rfl

@[simp] theorem depth_begun (s : State) : s.begun.depth = s.depth := rfl

end State

variable {part : Part} {nodes : List Node} {s s' : State}

theorem FunctionWords.depth {isAsync : Bool} (h : FunctionWords s isAsync s') :
    s'.depth = s.depth := by
  cases h with
  | plain => simp
  | asyncFirst => simp
  | asyncLast => simp

/-- The part leaves the levels of nesting that it enters.  Operators stay entered to the end of their
expression. -/
def Part.leavesLevels : Part → Bool
  | .climb _ _ => false
  | _ => true

@[simp] theorem Item.leavesLevels_part (item : Item) : item.part.leavesLevels := by
  cases item <;> rfl

theorem State.leavesLevels_statementPart (s : State) : s.statementPart.leavesLevels := by
  unfold State.statementPart
  repeat' split
  all_goals rfl

theorem Reads.depth (h : Reads true part nodes s s') : part.leavesLevels → s'.depth = s.depth := by
  induction h with
  | gap _ _ _ herror | lexicalError _ herror | openBlock _ _ _ _ herror | joined _ _ _ _ herror
  | broken _ _ _ herror | misassign _ _ _ _ herror | lateField _ herror
  | unknownPath _ _ _ _ herror | lateClause _ _ _ herror => cases herror
  | climbStop => exact fun hpart => absurd hpart Bool.false_ne_true
  | climbFold => exact fun hpart => absurd hpart Bool.false_ne_true
  | functionDecl hwords _ _ _ ihparameters ihbody =>
      intro _
      simp [ihparameters rfl, ihbody rfl, hwords.depth]
  | @statement _ s _ _ ih =>
      intro _
      simp [ih s.leavesLevels_statementPart]
  | @items _ _ _ item _ _ _ _ _ _ _ _ _ ihfirst ihrest =>
      intro _
      simp [ihfirst item.leavesLevels_part, ihrest rfl]
  | @more item _ _ _ _ _ _ _ _ ihnext ihrest =>
      intro _
      simp [ihnext item.leavesLevels_part, ihrest rfl]
  | literal | name | identifier | emptyList | noMore | noStatements | noMembers | address
  | noMoreSegments | noClauses | bareReturn =>
      intro _
      simp
  | expression | block =>
      intro _
      simp
  | call | array | object | macroCall | awaitExpr | bang | operation | subscript | entry | parameters
  | bare | structDecl | method | earlyField | field | importPath | importAs | knownPath | segments
  | moreSegments | elseClause | returnStmt =>
      rename_i ih
      intro _
      simp [ih rfl]
  | lambda | whole | assign | macroDecl | members | importNames | forStmt | clauses | elifClause =>
      rename_i ihfirst ihsecond
      intro _
      simp [ihfirst rfl, ihsecond rfl]
  | ifStmt =>
      rename_i ihcondition ihbody ihclauses
      intro _
      simp [ihcondition rfl, ihbody rfl, ihclauses rfl]

/-! ### The steps of the parts -/

/-- The readers inside a form with the given number of levels left. -/
abbrev Inner.ofLevels (levels : Nat) : Inner :=
  ⟨Parser.expressionAt levels, Parser.blockAt levels⟩

def Item.reader (inner : Inner) : Item → Parser Node
  | name => Parser.identifier
  | expression => inner.expression .lowest
  | entry => Parser.keyValuePair inner

/-- Reads a statement of the form, which is no function without a name. -/
def StatementForm.reader (inner : Inner) (form : StatementForm) : Parser Node :=
  if form = functionDecl then Parser.functionDecl inner else Parser.statementOf inner form

/-- The step of a parse that reads the part gives the nodes, with the given number of levels left. -/
def Part.Runs (levels : Nat) (nodes : List Node) (s s' : State) : Part → Prop
  | expression power => (Parser.expressionAt levels power).Gives nodes s s'
  | climb power left => (Parser.climbAt levels power left).Gives nodes s s'
  | operand shape => (Parser.operand (.ofLevels levels) shape).Gives nodes s s'
  | continuation next left shape =>
      (Parser.continuation (.ofLevels levels) next left shape).Gives nodes s s'
  | name => Parser.identifier.Gives nodes s s'
  | entry => (Parser.keyValuePair (.ofLevels levels)).Gives nodes s s'
  | list opener closer expressionList item => opener.closer? = some closer →
      (Parser.bracketed opener closer expressionList (item.reader (.ofLevels levels))).GivesList nodes s s'
  | more item => Parser.moreItems (item.reader (.ofLevels levels)) s = .ok nodes s'
  | parameters => Parser.parameterList.Gives nodes s s'
  | block => (Parser.blockAt levels).Gives nodes s s'
  | statements inBlock => ∀ reader [Parser.Forward reader],
      (∀ t node t', levels + t.depth = nestingLimit →
        Parser.statementIn (.ofLevels levels) t = .ok node t' → reader t = .ok node t') →
      Parser.statementList reader inBlock s = .ok nodes s'
  | statement => (Parser.statementIn (.ofLevels levels)).Gives nodes s s'
  | assignment => (Parser.assignmentOrExpression (.ofLevels levels)).Gives nodes s s'
  | form shape => (shape.reader (.ofLevels levels)).Gives nodes s s'
  | member seenMethod isMethod => ∃ node, nodes = [node] ∧
      Parser.structMember (.ofLevels levels) seenMethod s = .ok (node, isMethod) s'
  | members seenMethod => ∀ opener,
      Parser.moreMembers (.ofLevels levels) opener seenMethod s = .ok nodes s'
  | field => (Parser.structField (.ofLevels levels)).Gives nodes s s'
  | path => Parser.importPath.Gives nodes s s'
  | segments => Parser.segments s = .ok nodes s'
  | moreSegments => Parser.moreSegments s = .ok nodes s'
  | clause isElse => ∃ node, nodes = [node] ∧
      Parser.clause (.ofLevels levels) isElse s = .ok (s.current, node) s'
  | clauses seenElse => Parser.moreClauses (.ofLevels levels) seenElse s = .ok nodes s'

theorem Reads.kind_opener {clean : Bool} {opener closer : TokenKind} {expressionList : Bool}
    {item : Item} (h : Reads clean (.list opener closer expressionList item) nodes s s') :
    s.kind = opener := by
  cases h with
  | emptyList hopener => exact hopener
  | items hopener => exact hopener

theorem Reads.kind_field {clean : Bool} (h : Reads clean .field nodes s s') : s.kind = .identifier := by
  cases h with
  | field hkind => exact hkind

theorem Reads.kind_ne_of_path {clean : Bool} (h : Reads clean .path nodes s s') : s.kind ≠ .leftBrace := by
  cases h with
  | knownPath hkind => simp [hkind]
  | unknownPath hkind => simp [hkind]

theorem Item.reader_of_runs {levels : Nat} (item : Item) {node : Node}
    (h : item.part.Runs levels [node] s s') : item.reader (.ofLevels levels) s = .ok node s' := by
  cases item with
  | name | expression | entry => exact Parser.gives_iff.mp h

namespace Parser

instance forward_reader {inner : Inner} [Inner.Forward inner] (item : Item) :
    Forward (item.reader inner) := by
  cases item <;> unfold Item.reader <;> infer_instance

theorem kind_ne_closer {item : Item} {first : Node} (h : Reads true item.part [first] s s')
    {opener closer : TokenKind} (hcloser? : opener.closer? = some closer) : s.kind ≠ closer := by
  have hcloser : closer.operandForm? = none ∧ closer ≠ .identifier ∧ closer ≠ .string := by
    unfold TokenKind.closer? at hcloser?
    split at hcloser? <;> cases hcloser?
    all_goals exact ⟨rfl, nofun, nofun⟩
  rintro rfl
  cases item with
  | name =>
      cases h with
      | identifier hkind => exact hcloser.2.1 hkind
  | expression =>
      cases h with
      | gap _ _ _ herror => cases herror
      | expression _ hform =>
          rw [hcloser.1] at hform
          cases hform
  | entry =>
      cases h with
      | entry hkind => exact hcloser.2.2 hkind

theorem kind_ne_of_member {seenMethod isMethod : Bool} {node : Node}
    (h : Reads true (.member seenMethod isMethod) [node] s s') :
    s.kind ≠ .rightBrace ∧ s.kind ≠ .endOfFile := by
  cases h with
  | method hkind => rcases hkind with hkind | hkind <;> simp [hkind]
  | earlyField hfield => simp [hfield.kind_field]
  | lateField _ herror => cases herror

theorem gives_statementIn {levels : Nat} {node : Node}
    (hpart : s.statementPart.Runs levels [node] s.begun s') :
    (statementIn (.ofLevels levels)).Gives [node] s s' := by
  refine gives_iff.mpr ?_
  simp only [statementIn, bind_eq_ok, get_eq_ok, run_log, EStateM.Result.ok.injEq]
  refine ⟨_, _, ⟨rfl, rfl⟩, (), _, ⟨trivial, rfl⟩, ?_⟩
  unfold State.statementPart at hpart
  cases hstatement : s.kind.statementForm? with
  | none =>
      simp only [hstatement] at hpart
      simp only [State.kind_current, hstatement]
      exact gives_iff.mp hpart
  | some form =>
      simp only [hstatement] at hpart
      simp only [State.kind_current, hstatement]
      show statementOf (.ofLevels levels) form s.begun = _
      by_cases hfunction : form = .functionDecl
      · subst hfunction
        simp only [statementOf, functionStmt, bind_eq_ok, get_eq_ok, run_ite]
        refine ⟨_, _, ⟨rfl, rfl⟩, ?_⟩
        show (if s.kind = .keyword .fnKw && (s.peek 1).kind = .leftParen then
          assignmentOrExpression (.ofLevels levels) s.begun
          else functionDecl (.ofLevels levels) s.begun) = _
        by_cases hlambda : s.kind = .keyword .fnKw ∧ (s.peek 1).kind = .leftParen
        · rw [if_pos hlambda] at hpart
          rw [if_pos (by simpa using hlambda)]
          exact gives_iff.mp hpart
        · rw [if_neg hlambda] at hpart
          rw [if_neg (by simpa using hlambda)]
          exact gives_iff.mp hpart
      · have hlambda : ¬(s.kind = .keyword .fnKw ∧ (s.peek 1).kind = .leftParen) := by
          rintro ⟨hkind, -⟩
          rw [hkind] at hstatement
          cases hstatement
          exact hfunction rfl
        rw [if_neg hlambda] at hpart
        have hreader : form.reader (.ofLevels levels) = statementOf (.ofLevels levels) form :=
          if_neg hfunction
        rw [← hreader]
        exact gives_iff.mp hpart

/-- What the rules without errors derive is what the steps of a parse give. -/
theorem runs_of_reads (h : Reads true part nodes s s') {levels : Nat}
    (hlevels : levels + s.depth = nestingLimit) : part.Runs levels nodes s s' := by
  induction h generalizing levels with
  | gap _ _ _ herror | lexicalError _ herror | openBlock _ _ _ _ herror | joined _ _ _ _ herror
  | broken _ _ _ herror | misassign _ _ _ _ herror | lateField _ herror
  | unknownPath _ _ _ _ herror | lateClause _ _ _ herror => cases herror
  | @expression power form left node s s₁ s₂ hdepth hform hleft hclimb ihleft ihclimb =>
      -- the rule enters a level, so by its bound on the depth at least one is left
      obtain ⟨levels, rfl⟩ : ∃ below, levels = below + 1 := ⟨levels - 1, by omega⟩
      have hdepth₁ : s₁.depth = s.depth + 1 := hleft.depth rfl
      exact gives_expressionAt hdepth hform (ihleft (by simp only [State.depth_entered]; omega))
        (ihclimb (by omega))
  | climbStop hpending => exact gives_climbAt_stop levels hpending
  | @climbFold power next form left folded node s s₁ s₂ hpending hdepth hfolded _ ihfolded ihclimb =>
      obtain ⟨levels, rfl⟩ : ∃ below, levels = below + 1 := ⟨levels - 1, by omega⟩
      have hdepth₁ : s₁.depth = s.depth + 1 := hfolded.depth rfl
      exact gives_climbAt_fold hpending hdepth (ihfolded (by simp only [State.depth_entered]; omega))
        (ihclimb (by omega))
  | literal hkind => exact gives_literal hkind
  | name hkind hparen => exact gives_name hkind hparen
  | call hkind hvalues ih =>
      exact gives_call hkind hvalues.kind_opener (ih (by simpa using hlevels) rfl)
  | array _ ih => exact gives_array (ih hlevels rfl)
  | object _ ih => exact gives_object (ih hlevels rfl)
  | parameters _ ih => exact gives_parameterList (ih hlevels rfl)
  | lambda _ hparameters _ ihparameters ihbody =>
      exact gives_lambda (ihparameters (by simpa using hlevels))
        (ihbody (by simpa [hparameters.depth rfl] using hlevels))
  | macroCall _ hname hvalues ih =>
      exact gives_macroCall hname hvalues.kind_opener (ih (by simpa using hlevels) rfl)
  | awaitExpr _ _ ih => exact gives_awaitExpr (ih (by simpa using hlevels))
  | bang _ _ ih => exact gives_bang (ih (by simpa using hlevels))
  | operation hform _ _ ih => exact gives_operation hform (ih (by simpa using hlevels))
  | subscript _ _ hclosing ih => exact gives_subscript (ih (by simpa using hlevels)) hclosing
  | identifier hkind => exact gives_identifier hkind
  | entry hkind hcolon _ ih => exact gives_keyValuePair hkind hcolon (ih (by simpa using hlevels))
  | emptyList hopener hcloser =>
      exact fun hcloser? => bracketed_ok hcloser? hopener (itemsBefore_ok_nil hcloser) hcloser
  | @items opener closer expressionList item first rest s s₁ s₂ hopener hfirst _ hcloser ihfirst ihrest =>
      intro hcloser?
      have hdepth : s₁.depth = s.depth := by simpa using hfirst.depth item.leavesLevels_part
      have hnext := item.reader_of_runs (ihfirst (by simpa using hlevels))
      have hmore := ihrest (by simpa [hdepth] using hlevels)
      exact bracketed_ok hcloser? hopener
        (itemsBefore_ok_cons (kind_ne_closer hfirst hcloser?) hnext hmore) hcloser
  | noMore hkind => exact moreItems_ok_nil hkind
  | @more item next rest s s₁ s₂ hkind hnext _ ihnext ihrest =>
      have hdepth : s₁.depth = s.depth := by simpa using hnext.depth item.leavesLevels_part
      exact moreItems_ok_cons hkind (item.reader_of_runs (ihnext (by simpa using hlevels)))
        (ihrest (by simpa [hdepth] using hlevels))
  | block hdepth hopener _ hclosing ih =>
      obtain ⟨levels, rfl⟩ : ∃ below, levels = below + 1 := ⟨levels - 1, by omega⟩
      have hbody := ih (by simp; omega) (statementIn (.ofLevels levels))
        fun _ _ _ _ hrun => hrun
      exact gives_blockAt hdepth hopener hbody hclosing
  | noStatements hend => exact fun _ _ _ => statementList_ok_nil hend
  | whole hmore hstatement hseparated _ ihstatement ihrest =>
      intro reader _ hreader
      have hnode := gives_iff.mp (ihstatement (by simpa using hlevels))
      exact statementList_ok_cons hmore (hreader _ _ _ (by simpa using hlevels) hnode) hseparated
        (ihrest (by simpa [hstatement.depth rfl] using hlevels) reader hreader)
  | statement _ ih => exact gives_statementIn (ih hlevels)
  | bare _ hkind ih => exact gives_bare (ih hlevels) hkind
  | assign htarget hkind _ hvalid ihtarget ihvalue =>
      exact gives_assign (ihtarget hlevels) hkind
        (ihvalue (by simpa [htarget.depth rfl] using hlevels)) hvalid
  | functionDecl hwords hname hparameters _ ihparameters ihbody =>
      exact gives_functionDecl hwords hname (ihparameters (by simpa [hwords.depth] using hlevels))
        (ihbody (by simpa [hparameters.depth rfl, hwords.depth] using hlevels))
  | macroDecl _ hname hparameters _ ihparameters ihbody =>
      exact gives_macroDecl hname (ihparameters (by simpa using hlevels))
        (ihbody (by simpa [hparameters.depth rfl] using hlevels))
  | structDecl _ hname hopener _ hclosing ih =>
      exact gives_structDecl hname hopener (ih (by simpa using hlevels) _) hclosing
  | noMembers hkind => exact fun _ => moreMembers_ok_nil hkind
  | members hmember hend _ ihmember ihrest =>
      intro opener
      obtain ⟨_, ⟨⟩, hnode⟩ := ihmember (by simpa using hlevels)
      obtain ⟨hbrace, hfile⟩ := kind_ne_of_member hmember
      exact moreMembers_ok_cons hbrace hfile hnode hend
        (ihrest (by simpa [hmember.depth rfl] using hlevels) opener)
  | method hkind _ ih => exact ⟨_, rfl, structMember_ok_method hkind (ih hlevels)⟩
  | earlyField hfield ih => exact ⟨_, rfl, structMember_ok_field hfield.kind_field (ih hlevels)⟩
  | field hkind hassign _ ih => exact gives_structField hkind hassign (ih (by simpa using hlevels))
  | importPath _ hpath has ih =>
      refine gives_importStmt ?_
      rw [if_neg hpath.kind_ne_of_path]
      exact pathImport_ok (ih (by simpa using hlevels)) has
  | importAs _ hpath has hname ih =>
      refine gives_importStmt ?_
      rw [if_neg hpath.kind_ne_of_path]
      exact pathImport_ok_as (ih (by simpa using hlevels)) has hname
  | importNames _ hnames hsome hfrom _ ihnames ihpath =>
      refine gives_importStmt ?_
      rw [if_pos hnames.kind_opener]
      exact nameImport_ok (ihnames (by simpa using hlevels) rfl) hsome hfrom
        (ihpath (by simpa [hnames.depth rfl] using hlevels))
  | knownPath hkind hcolon _ hscheme ih =>
      exact gives_importPath hkind hcolon (ih (by simpa using hlevels)) hscheme
  | address hkind => exact segments_ok_address hkind
  | segments hkind _ ih => exact segments_ok_names hkind (ih (by simpa using hlevels))
  | noMoreSegments hkind => exact moreSegments_ok_nil hkind
  | moreSegments hkind hname _ ih => exact moreSegments_ok_cons hkind hname (ih (by simpa using hlevels))
  | forStmt _ hcondition _ ihcondition ihbody =>
      exact gives_forStmt (ihcondition (by simpa using hlevels))
        (ihbody (by simpa [hcondition.depth rfl] using hlevels))
  | ifStmt _ hcondition hbody _ ihcondition ihbody ihclauses =>
      exact gives_ifStmt (ihcondition (by simpa using hlevels))
        (ihbody (by simpa [hcondition.depth rfl] using hlevels))
        (ihclauses (by simpa [hbody.depth rfl, hcondition.depth rfl] using hlevels))
  | noClauses hclause => exact moreClauses_ok_nil hclause
  | clauses hclause hnode _ ihnode ihrest =>
      obtain ⟨_, ⟨⟩, hrun⟩ := ihnode (by simpa using hlevels)
      exact moreClauses_ok_cons hclause hrun (ihrest (by simpa [hnode.depth rfl] using hlevels))
  | elseClause _ _ ih => exact ⟨_, rfl, clause_ok_else (ih (by simpa using hlevels))⟩
  | elifClause _ hcondition _ ihcondition ihbody =>
      exact ⟨_, rfl, clause_ok_elif (ihcondition (by simpa using hlevels))
        (ihbody (by simpa [hcondition.depth rfl] using hlevels))⟩
  | bareReturn _ hend => exact gives_bareReturn hend
  | returnStmt _ hend _ ih => exact gives_returnStmt hend (ih (by simpa using hlevels))

theorem sourceFile_of_reads {body : List Node} (h : Reads true (.statements false) body s s')
    (hdepth : s.depth = 0) :
    sourceFile s = .ok (Node.branch .sourceFile ⟨s'.start, s'.endOfFile⟩ body) s' := by
  have hlist : statementList statement false s = .ok body s' := by
    have hlevels : nestingLimit + s.depth = nestingLimit := by rw [hdepth, Nat.add_zero]
    refine runs_of_reads h hlevels statement ?_
    intro t node t' hlevels hrun
    show statementIn (.ofLevels (nestingLimit - t.depth)) t = _
    have hzero : nestingLimit - t.depth = nestingLimit := by omega
    rw [hzero]
    exact hrun
  simp only [sourceFile, bind_eq_ok, get_eq_ok, pure_eq_ok]
  exact ⟨body, s', hlist, _, _, ⟨rfl, rfl⟩, rfl, rfl⟩

end Parser

theorem parse_of_reads {source : String} {options : Options} {body : List Node} {s' : State}
    (h : Reads true (.statements false) body (State.ofSource source options) s') :
    parse source options = ⟨Node.branch .sourceFile ⟨s'.start, s'.endOfFile⟩ body, s'.diagnostics⟩ := by
  have hresult : (State.ofSource source options).readSource = _ :=
    State.readSource_eq (Parser.sourceFile_of_reads h (State.depth_ofSource source options))
  simp only [parse, parseLogged, parseTokens]
  rw [show (State.ofTokens options Position.origin (tokenize source)).readSource = _ from hresult]

end ScriptSyntax
