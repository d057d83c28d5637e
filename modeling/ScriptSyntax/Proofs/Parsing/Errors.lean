import ScriptSyntax.Proofs.Parsing.Clean
import ScriptSyntax.Proofs.Parsing.Whole
import ScriptSyntax.Proofs.Tree.Walk

/-!
Error nodes and reported errors.  Each error node that a part of the grammar gives was reported, and a part
that reports an error gives an error node, so a tree shows whether its source is broken.
-/

namespace ScriptSyntax

namespace State

@[simp] theorem errorCount_noted (s : State) (slot : Slot) :
    (s.noted slot).errorCount = s.errorCount := by
  unfold noted
  split
  · split
    · simp [errorCount, reported, commentWarning, Diagnostic.warning, Diagnostic.withNote,
        Diagnostic.isError]
    · rfl
  · rfl

@[simp] theorem errorCount_advanced (s : State) : s.advanced.errorCount = s.errorCount := by
  unfold advanced
  split
  · rfl
  · exact errorCount_noted s _

theorem errorCount_pastWhile (p : TokenKind → Bool) (slots : List Slot) (s : State) :
    (pastWhile p slots s).errorCount = s.errorCount := by
  induction slots generalizing s with
  | nil => rfl
  | cons slot slots ih =>
      unfold pastWhile
      split
      · rw [ih, errorCount_advanced]
      · rfl

@[simp] theorem errorCount_pastNewlines (s : State) : s.pastNewlines.errorCount = s.errorCount :=
  errorCount_pastWhile _ _ s

@[simp] theorem errorCount_pastSeparators (s : State) :
    s.pastSeparators.errorCount = s.errorCount :=
  errorCount_pastWhile _ _ s

theorem errorCount_pastBroken (inBlock : Bool) (owed : List TokenKind) (slots : List Slot)
    (s : State) : (pastBroken inBlock owed slots s).errorCount = s.errorCount := by
  induction slots generalizing s owed with
  | nil => rfl
  | cons slot slots ih =>
      unfold pastBroken
      split
      · rfl
      · rw [ih, errorCount_advanced]

@[simp] theorem errorCount_recovered (s : State) (mark : Mark) (inBlock : Bool) :
    (s.recovered mark inBlock).errorCount = s.errorCount :=
  errorCount_pastBroken _ _ _ s

@[simp] theorem errorCount_opened (s : State) (closer : TokenKind) (expressionList : Bool) :
    (s.opened closer expressionList).errorCount = s.errorCount := rfl

@[simp] theorem errorCount_closed (s : State) : s.closed.errorCount = s.errorCount := rfl

@[simp] theorem errorCount_entered (s : State) : s.entered.errorCount = s.errorCount := rfl

@[simp] theorem errorCount_leaving (s : State) (depth : Nat) :
    (s.leaving depth).errorCount = s.errorCount := rfl

@[simp] theorem errorCount_begun (s : State) : s.begun.errorCount = s.errorCount := rfl

end State

variable {part : Part} {nodes : List Node} {s s' : State}

theorem FunctionWords.errorCount {isAsync : Bool} (h : FunctionWords s isAsync s') :
    s'.errorCount = s.errorCount := by
  cases h with
  | plain => simp
  | asyncFirst => simp
  | asyncLast => simp

open Node (errorNodesOf errorNodes_mk)

/-- The nodes `after` have error nodes more than `before`, and between the states at least as many errors
are reported as there are error nodes more; none is reported if there is none more. -/
def Accounted (before after : List Node) (s s' : State) : Prop :=
  errorNodesOf before ≤ errorNodesOf after ∧
    s.errorCount + errorNodesOf after ≤ s'.errorCount + errorNodesOf before ∧
    (errorNodesOf after = errorNodesOf before → s'.errorCount = s.errorCount)

theorem literalKind?_ne_errorNode {kind : TokenKind} {literal : NodeKind}
    (h : Parser.literalKind? kind = some literal) : literal ≠ .errorNode := by
  obtain ⟨-, rfl⟩ | ⟨-, rfl⟩ | ⟨-, rfl⟩ := Parser.literalKind?_cases h
  all_goals exact nofun

theorem assignmentKind?_ne_errorNode {kind : TokenKind} {assignment : NodeKind}
    (h : Parser.assignmentKind? kind = some assignment) : assignment ≠ .errorNode := by
  obtain ⟨-, rfl⟩ | ⟨-, rfl⟩ | ⟨-, rfl⟩ := Parser.assignmentKind?_cases h
  all_goals exact nofun

theorem OperatorForm.nodeKind_ne_errorNode (form : OperatorForm) : form.nodeKind ≠ .errorNode := by
  cases form <;> nofun

/-- Every part of the grammar reports its error nodes, and leaves an error node where it reports. -/
theorem Reads.accounted (h : Reads false part nodes s s') :
    Accounted part.left?.toList nodes s s' := by
  unfold Accounted
  induction h with
  | @gap power s =>
      have hreported := s.entered.errorCount_reported (isError_gapDiagnostic s)
      simp [Part.left?, hreported]
  | lexicalError =>
      simp [Part.left?, State.errorCount_reported_ofError]
  | literal hkind =>
      simp [Part.left?, State.leaf, Node.leaf, errorNodes_mk (literalKind?_ne_errorNode hkind)]
  | climbStop | name | identifier | emptyList | noMore | noStatements | noMembers | address
  | noMoreSegments | noClauses | bareReturn =>
      simp [Part.left?, State.leaf, Node.leaf, Node.branch, errorNodes_mk]
  | @operation _ _ _ form _ _ _ _ _ ih =>
      simp [Part.left?, errorNodes_mk form.nodeKind_ne_errorNode] at ih ⊢
      omega
  | assign _ hkind _ _ ihtarget ihvalue | misassign _ hkind _ _ _ ihtarget ihvalue =>
      simp [Part.left?, errorNodes_mk (assignmentKind?_ne_errorNode hkind),
        State.errorCount_reported_ofError] at ihtarget ihvalue ⊢
      omega
  | functionDecl hwords _ _ _ ihparameters ihbody =>
      simp [Part.left?, errorNodes_mk, hwords.errorCount, State.leaf, Node.leaf]
        at ihparameters ihbody ⊢
      omega
  | broken _ hstatement hrecovered _ _ ih =>
      -- what the failed statement reported on its way counts, and its nodes are gone
      subst hrecovered
      have hgrows := (Parser.Forward.advances_of_error _ hstatement).errorCount_le
      simp [Part.left?, State.errorCount_reported_ofError] at ih hgrows ⊢
      omega
  | joined _ _ _ hrecovered _ _ ihstatement ihrest =>
      subst hrecovered
      simp [Part.left?, State.errorCount_reported_ofError] at ihstatement ihrest ⊢
      omega
  | statement _ ih =>
      have hpart : Part.statement.left? = none := rfl
      simpa [hpart] using ih
  | items _ _ _ _ ihfirst ihrest | more _ _ _ ihfirst ihrest =>
      simp only [Item.left?_part] at ihfirst
      simp [Part.left?] at ihfirst ihrest ⊢
      omega
  | climbFold _ _ _ _ ihfolded ihclimb =>
      simp [Part.left?] at ihfolded ihclimb ⊢
      omega
  | call | array | object | macroCall | awaitExpr | bang | subscript | entry | parameters | block
  | openBlock | bare | structDecl | method | earlyField | lateField | field | importPath | importAs
  | knownPath | unknownPath | segments | moreSegments | elseClause | returnStmt =>
      rename_i ih
      simp [Part.left?, errorNodes_mk, State.leaf, Node.leaf, Node.branch,
        State.errorCount_reported_ofError] at ih ⊢
      omega
  | expression | lambda | whole | macroDecl | members | importNames | forStmt | clauses | lateClause
  | elifClause =>
      rename_i ihfirst ihsecond
      simp [Part.left?, errorNodes_mk, State.leaf, Node.leaf, Node.branch,
        State.errorCount_reported_ofError] at ihfirst ihsecond ⊢
      omega
  | ifStmt _ _ _ _ ihcondition ihbody ihclauses =>
      simp [Part.left?, errorNodes_mk, Node.branch] at ihcondition ihbody ihclauses ⊢
      omega

namespace ParseResult

theorem length_errors {r : ParseResult} {s : State} (hdiagnostics : r.diagnostics = s.diagnostics) :
    r.errors.length = s.errorCount := by
  have hperm := (Diagnostic.inSourceOrder_perm s.reports.reverse).filter (·.isError)
  rw [errors, hdiagnostics, State.diagnostics, hperm.length_eq, List.filter_reverse,
    List.length_reverse, State.errorCount]

theorem hasErrors_iff (r : ParseResult) : r.hasErrors ↔ 0 < r.errors.length := by
  simp [hasErrors, errors, List.length_pos_iff_exists_mem]

theorem errorCount_eq_zero {r : ParseResult} {s : State} (hdiagnostics : r.diagnostics = s.diagnostics)
    (hclean : r.hasErrors = false) : s.errorCount = 0 := by
  have hcount := length_errors hdiagnostics
  have hnone : ¬0 < r.errors.length := by
    rw [← hasErrors_iff, hclean]
    exact Bool.false_ne_true
  omega

end ParseResult

theorem parse_accounted (source : String) (options : Options) :
    (parse source options).root.errorNodes ≤ (parse source options).errors.length ∧
      ((parse source options).root.errorNodes = 0 → (parse source options).errors.length = 0) := by
  obtain ⟨body, s', hroot, hdiagnostics, hreads, -⟩ := parse_reads source options
  have herrors := ParseResult.length_errors hdiagnostics
  have hnodes : (parse source options).root.errorNodes = errorNodesOf body := by
    rw [hroot]
    exact errorNodes_mk (by decide) ..
  have hstart : (State.ofSource source options).errorCount = 0 := rfl
  obtain ⟨-, hcovered, hsilent⟩ := hreads.accounted
  simp only [Part.left?, Option.toList, Node.errorNodesOf_nil, hstart] at hcovered hsilent
  omega

theorem hasErrors_parse (source : String) (options : Options) :
    (parse source options).hasErrors = (parse source options).root.containsErrors := by
  have haccounted := parse_accounted source options
  rw [Bool.eq_iff_iff, ParseResult.hasErrors_iff, Node.containsErrors_iff]
  omega

/-- A parse reports an error if and only if its tree has an error node, and it reports at least as many
errors as its tree has error nodes. -/
theorem hasErrors_eq_containsErrors (source : String) (options : Options) :
    (parse source options).hasErrors = (parse source options).root.containsErrors ∧
      ((parse source options).root.findAll .errorNode).length ≤
        (parse source options).errors.length := by
  refine ⟨hasErrors_parse source options, ?_⟩
  rw [Node.length_findAll_errorNode]
  exact (parse_accounted source options).1

end ScriptSyntax
