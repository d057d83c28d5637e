import ScriptSyntax.Proofs.Parsing.Runs
import ScriptSyntax.Proofs.Tree.Levels

/-!
The limit of nesting.  What a parse reads from a state takes no more levels than are left there, also
where a statement fails, `Reads.within`.  So a whole tree takes no more than the limit, `parse_nesting_le`, and
a path of the tree meets as many where it is straight.
-/

namespace ScriptSyntax

def State.levelsLeft (s : State) : Nat := nestingLimit - s.depth

theorem State.levelsLeft_le {s s' : State} (h : s.depth ≤ s'.depth) : s'.levelsLeft ≤ s.levelsLeft :=
  Nat.sub_le_sub_left h nestingLimit

theorem State.forall_nesting_cons {n : Node} {nodes : List Node} {s s₀ s₁ : State}
    (hfirst : n.nesting ≤ s₀.levelsLeft) (hbegins : s.depth ≤ s₀.depth)
    (hrest : ∀ m ∈ nodes, m.nesting ≤ s₁.levelsLeft) (hlater : s.depth ≤ s₁.depth) :
    ∀ m ∈ n :: nodes, m.nesting ≤ s.levelsLeft := by
  refine List.forall_mem_cons.mpr ⟨Nat.le_trans hfirst (levelsLeft_le hbegins), fun m hm => ?_⟩
  exact Nat.le_trans (hrest m hm) (levelsLeft_le hlater)

/-- A node of a part that is read from a state takes no more levels than are left there.  The first operand of
an expression has a level entered for it; operators are counted from the level `base` that their expression
began at.  A name that is no expression takes no level. -/
def Part.Within (s : State) (n : Node) : Part → Prop
  | operand _ => n.nesting ≤ s.levelsLeft + 1 ∧ n.opened = 1
  | climb _ left => ∀ base, base + left.opened ≤ s.depth → base + left.nesting ≤ nestingLimit →
      base + n.nesting ≤ nestingLimit
  | continuation _ left _ => ∀ base, base + left.opened < s.depth → s.depth ≤ nestingLimit →
      base + left.nesting ≤ nestingLimit →
        base + n.nesting ≤ nestingLimit ∧ base + n.opened ≤ s.depth
  | list _ _ _ item | more item => item ≠ .name → n.nesting ≤ s.levelsLeft
  | name | segments | moreSegments => True
  | _ => n.nesting ≤ s.levelsLeft

theorem Item.nesting_le {item : Item} {s : State} {n : Node} (h : item.part.Within s n)
    (hitem : item ≠ .name) : n.nesting ≤ s.levelsLeft := by
  cases item with
  | name => exact absurd rfl hitem
  | expression => exact h
  | entry => exact h

theorem State.nesting_le {s t : State} {n : Node} (h : s.statementPart.Within t n) :
    n.nesting ≤ t.levelsLeft := by
  unfold statementPart at h
  split at h
  · exact h
  · split at h
    · exact h
    · exact h

namespace Node

theorem highest_nesting_le {nodes : List Node} {bound : Nat} (h : ∀ n ∈ nodes, n.nesting ≤ bound) :
    highest (nodes.map nesting) ≤ bound := by
  induction nodes with
  | nil => exact Nat.zero_le _
  | cons n nodes ih =>
      obtain ⟨hfirst, hrest⟩ := List.forall_mem_cons.mp h
      exact Nat.max_le.mpr ⟨hfirst, ih hrest⟩

@[simp] theorem nesting_error (span : Span) : nesting (error span []) = 0 := by
  simp [error, nesting_mk, levelsAround]

@[simp] theorem nesting_errorWrapping (n : Node) : n.errorWrapping.nesting = n.nesting := by
  simp [errorWrapping, error, nesting_mk, levelsAround]

theorem nesting_assignment {token : TokenKind} {kind : NodeKind}
    (hkind : Parser.assignmentKind? token = some kind) (target value : Node) (span : Span)
    (literal : Option String) :
    nesting ⟨kind, [target, value], span, literal⟩ = max target.nesting value.nesting := by
  obtain ⟨-, rfl⟩ | ⟨-, rfl⟩ | ⟨-, rfl⟩ := Parser.assignmentKind?_cases hkind
  all_goals simp [nesting_mk, levelsAround]

/-- An operator opens at most one level more than its left operand. -/
theorem opened_pair_le (kind : NodeKind) (left right : Node) (span : Span) (literal : Option String) :
    opened ⟨kind, [left, right], span, literal⟩ ≤ left.opened + 1 := by
  rw [opened]
  split
  · exact Nat.le_refl _
  · exact Nat.le_add_left _ _

theorem opened_of_plain {n : Node} (hkind : n.kind.isOperation = false) : n.opened = 1 := by
  have hoperator := operator?_of_plain hkind
  unfold opened
  split
  · rw [hoperator]
    rfl
  · rfl

end Node

open Node in
/-- The nodes of a part take no more levels than are left. -/
theorem Reads.within {clean : Bool} {part : Part} {nodes : List Node} {s s' : State}
    (h : Reads clean part nodes s s') : ∀ n ∈ nodes, part.Within s n := by
  induction h with
  | gap =>
      refine List.forall_mem_singleton.mpr ?_
      simp [Part.Within]
  | @expression power form left node s s₁ s₂ hdepth _ hleft _ ihleft ihclimb =>
      refine List.forall_mem_singleton.mpr ?_
      -- the operators count from the level that this expression was begun at, not from that of its operand
      obtain ⟨hnesting, hopened⟩ := ihleft left (List.mem_singleton_self _)
      have hentered : s.depth + 1 ≤ s₁.depth := hleft.advances.depth
      have hnode := ihclimb node (List.mem_singleton_self _) s.depth
      simp only [Part.Within, State.levelsLeft, State.depth_entered] at hnesting hnode ⊢
      omega
  | climbStop =>
      refine List.forall_mem_singleton.mpr ?_
      exact fun _ _ hleft => hleft
  | @climbFold power next form left folded node s s₁ s₂ _ hdepth hfolded _ ihfolded ihclimb =>
      -- each operator of a chain stays entered, so what is open grows with the operand on the left
      refine List.forall_mem_singleton.mpr fun base hopened hleft => ?_
      have hentered : s.depth + 1 ≤ s₁.depth := hfolded.advances.depth
      obtain ⟨hnesting, hfoldedOpened⟩ := ihfolded folded (List.mem_singleton_self _) base
        (Nat.lt_succ_of_le hopened) hdepth hleft
      exact ihclimb node (List.mem_singleton_self _) base (Nat.le_trans hfoldedOpened hentered)
        hnesting
  | literal hkind =>
      refine List.forall_mem_singleton.mpr ⟨?_, opened_of_plain (isOperation_literalKind? hkind)⟩
      obtain ⟨-, rfl⟩ | ⟨-, rfl⟩ | ⟨-, rfl⟩ := Parser.literalKind?_cases hkind
      all_goals simp [State.leaf, Node.leaf, nesting_mk, levelsAround]
  | name =>
      refine List.forall_mem_singleton.mpr ⟨?_, rfl⟩
      simp [State.leaf, Node.leaf, nesting_mk, levelsAround]
  | call _ _ ih | macroCall _ _ _ ih =>
      refine List.forall_mem_singleton.mpr ⟨?_, opened_of_plain rfl⟩
      have hbelow := highest_nesting_le fun value hvalue => ih value hvalue (by simp)
      simpa [Node.branch, nesting_mk, levelsAround, State.levelsLeft] using hbelow
  | array _ ih | object _ ih =>
      refine List.forall_mem_singleton.mpr ⟨?_, opened_of_plain rfl⟩
      have hbelow := highest_nesting_le fun value hvalue => ih value hvalue (by simp)
      simpa [Node.branch, nesting_mk, levelsAround] using hbelow
  | lambda _ hparameters _ ihparameters ihbody =>
      refine List.forall_mem_singleton.mpr ⟨?_, opened_of_plain rfl⟩
      have hdepth := hparameters.advances.depth
      have hfirst := ihparameters _ (List.mem_singleton_self _)
      have hsecond := ihbody _ (List.mem_singleton_self _)
      simp [Part.Within, State.levelsLeft] at hdepth hfirst hsecond
      simp [Node.branch, nesting_mk, levelsAround, State.levelsLeft]
      omega
  | awaitExpr _ _ ih | bang _ _ ih =>
      refine List.forall_mem_singleton.mpr ⟨?_, rfl⟩
      have hoperand := ih _ (List.mem_singleton_self _)
      simpa [Node.branch, nesting_mk, levelsAround, Part.Within, State.levelsLeft] using hoperand
  | lexicalError => exact List.forall_mem_singleton.mpr ⟨by simp, rfl⟩
  | @operation next left right form s s' _ _ _ ih =>
      refine List.forall_mem_singleton.mpr fun base hopened hlimit hleft => ?_
      have hright := ih right (List.mem_singleton_self _)
      have hpair := opened_pair_le form.nodeKind left right (left.span.through right.span)
        (form.literal? s.current.text)
      simp only [Part.Within, State.levelsLeft, State.depth_pastNewlines, State.depth_advanced]
        at hright
      rw [nesting_operation]
      omega
  | @subscript next left index s s₁ _ _ _ ih =>
      refine List.forall_mem_singleton.mpr fun base hopened hlimit hleft => ?_
      have hindex := ih index (List.mem_singleton_self _)
      have hpair := opened_pair_le .subscript left index
        (left.span.through s₁.pastNewlines.current.span) none
      have hnesting := nesting_operation .subscript left index
        (left.span.through s₁.pastNewlines.current.span) none
      simp only [Part.Within, State.levelsLeft, State.depth_pastNewlines, State.depth_advanced,
        State.depth_opened] at hindex
      simp only [OperatorForm.nodeKind] at hnesting
      simp only [Node.branch, hnesting]
      omega
  | identifier | address => exact List.forall_mem_singleton.mpr trivial
  | segments | moreSegments => exact fun _ _ => trivial
  | emptyList | noMore | noStatements | noMembers | noMoreSegments | noClauses =>
      exact List.forall_mem_nil _
  | entry _ _ _ ih | field _ _ _ ih | elseClause _ _ ih | returnStmt _ _ _ ih | bare _ _ ih =>
      refine List.forall_mem_singleton.mpr ?_
      have hvalue := ih _ (List.mem_singleton_self _)
      simpa [Node.branch, nesting_mk, levelsAround, Part.Within, State.levelsLeft] using hvalue
  | items _ hfirst _ _ ihfirst ihrest | more _ hfirst _ ihfirst ihrest =>
      intro n hn hitem
      have hnesting := Item.nesting_le (ihfirst _ (List.mem_singleton_self _)) hitem
      exact State.forall_nesting_cons hnesting (by simp) (fun m hm => ihrest m hm hitem)
        (by simpa using hfirst.advances.depth) n hn
  | parameters | importPath | importAs | importNames | knownPath | unknownPath | bareReturn =>
      refine List.forall_mem_singleton.mpr ?_
      simp [Node.branch, nesting_mk, levelsAround, Part.Within]
  | block hdepth _ _ _ ih | openBlock hdepth _ _ _ _ ih =>
      refine List.forall_mem_singleton.mpr ?_
      have hbelow := highest_nesting_le ih
      simp [State.levelsLeft] at hbelow
      simp [Node.branch, Node.error, nesting_mk, levelsAround, Part.Within, State.levelsLeft]
      omega
  | whole _ hstatement _ _ ihstatement ihrest | members hstatement _ _ ihstatement ihrest
  | clauses _ hstatement _ ihstatement ihrest =>
      exact State.forall_nesting_cons (ihstatement _ (List.mem_singleton_self _)) (by simp) ihrest
        (by simpa using hstatement.advances.depth)
  | @joined _ node rest s s₁ s₂ _ _ hstatement _ hrecovered _ _ ihstatement ihrest =>
      have hlater : s₁.Advances s₂ := hrecovered ▸ s₁.advances_reported_recovered _ _ _
      have hskipped : ∀ m ∈ Node.error (s₂.spanSince s₁.mark) [] :: rest, m.nesting ≤ s₁.levelsLeft :=
        List.forall_mem_cons.mpr ⟨by simp, fun m hm =>
          Nat.le_trans (ihrest m hm) (State.levelsLeft_le hlater.depth)⟩
      exact State.forall_nesting_cons (ihstatement _ (List.mem_singleton_self _)) (by simp) hskipped
        (by simpa using hstatement.advances.depth)
  | @broken _ _ _ rest s s₁ s₂ _ _ hstatement hrecovered _ _ ihrest =>
      have hlater : s₁.Advances s₂ := hrecovered ▸ s₁.advances_reported_recovered _ _ _
      have hdepth := ((Parser.Forward.advances_of_error _ hstatement).trans hlater).depth
      rw [State.depth_pastSeparators] at hdepth
      exact List.forall_mem_cons.mpr ⟨by simp [Part.Within], fun m hm =>
        Nat.le_trans (ihrest m hm) (State.levelsLeft_le hdepth)⟩
  | statement _ ih =>
      refine List.forall_mem_singleton.mpr ?_
      exact State.nesting_le (ih _ (List.mem_singleton_self _))
  | method _ _ ih | earlyField _ ih => exact ih
  | lateField _ _ ih =>
      refine List.forall_mem_singleton.mpr ?_
      simpa [Part.Within] using ih _ (List.mem_singleton_self _)
  | assign htarget hkind _ _ ihtarget ihvalue | misassign htarget hkind _ _ _ ihtarget ihvalue =>
      refine List.forall_mem_singleton.mpr ?_
      have hdepth := htarget.advances.depth
      have hfirst := ihtarget _ (List.mem_singleton_self _)
      have hsecond := ihvalue _ (List.mem_singleton_self _)
      simp only [Part.Within, State.levelsLeft, State.depth_advanced] at hfirst hsecond ⊢
      simp only [nesting_assignment hkind, nesting_errorWrapping]
      omega
  | functionDecl hwords _ hparameters _ ihparameters ihbody =>
      refine List.forall_mem_singleton.mpr ?_
      have hdepth := hparameters.advances.depth
      have hfirst := ihparameters _ (List.mem_singleton_self _)
      have hsecond := ihbody _ (List.mem_singleton_self _)
      simp [Part.Within, State.levelsLeft, hwords.depth] at hdepth hfirst hsecond
      simp [nesting_mk, levelsAround, Part.Within, State.levelsLeft]
      omega
  | macroDecl _ _ hfirst _ ihfirst ihsecond | forStmt _ hfirst _ ihfirst ihsecond
  | elifClause _ hfirst _ ihfirst ihsecond =>
      refine List.forall_mem_singleton.mpr ?_
      have hdepth := hfirst.advances.depth
      have hbefore := ihfirst _ (List.mem_singleton_self _)
      have hbehind := ihsecond _ (List.mem_singleton_self _)
      simp [Part.Within, State.levelsLeft] at hdepth hbefore hbehind
      simp [Node.branch, nesting_mk, levelsAround, Part.Within, State.levelsLeft]
      omega
  | structDecl _ _ _ _ _ ih =>
      refine List.forall_mem_singleton.mpr ?_
      have hbelow := highest_nesting_le ih
      simpa [Node.branch, nesting_mk, levelsAround, Part.Within, State.levelsLeft] using hbelow
  | ifStmt _ hcondition hbody _ ihcondition ihbody ihclauses =>
      refine List.forall_mem_singleton.mpr ?_
      have hdepth := hcondition.advances.depth
      have hdepth' := hbody.advances.depth
      have hfirst := ihcondition _ (List.mem_singleton_self _)
      have hsecond := ihbody _ (List.mem_singleton_self _)
      have hbelow := highest_nesting_le ihclauses
      simp [Part.Within, State.levelsLeft] at hdepth hdepth' hfirst hsecond hbelow
      simp [Node.branch, nesting_mk, levelsAround, Part.Within, State.levelsLeft]
      omega
  | lateClause _ hnode _ _ ihnode ihrest =>
      have hwrapped := Nat.le_trans (Nat.le_of_eq (nesting_errorWrapping _))
        (ihnode _ (List.mem_singleton_self _))
      exact State.forall_nesting_cons hwrapped (by simp) ihrest
        (by simpa using hnode.advances.depth)

theorem parse_nesting_le (source : String) (options : Options) :
    (parse source options).root.nesting ≤ nestingLimit := by
  obtain ⟨body, s', hroot, -, hreads, -⟩ := parse_reads source options
  have hbelow := Node.highest_nesting_le hreads.within
  have hleft : (State.ofSource source options).levelsLeft ≤ nestingLimit := Nat.sub_le _ _
  rw [hroot]
  simp only [Node.branch, Node.nesting_mk, Node.levelsAround]
  exact Nat.le_trans hbelow hleft

/-- The forms that take a level along a path of a parse are no more than the limit where the path is
straight.  On other paths what nests in an operand and the operators behind it add up, to no more than the
sum of the numbers up to the limit. -/
theorem parse_levels_le (source : String) (options : Options) (path : List Nat) :
    ((parse source options).root.Straight path →
        (parse source options).root.levels path ≤ nestingLimit) ∧
      (parse source options).root.levels path ≤ Node.triangle nestingLimit := by
  have hshaped := every_shaped source options
  have hnesting := parse_nesting_le source options
  constructor
  · intro hstraight
    exact Nat.le_trans (Node.levels_le_nesting hshaped hstraight) hnesting
  · exact Nat.le_trans (Node.levels_le_triangle hshaped).1 (Node.triangle_mono hnesting)

/-- The sum, the member in front of it and the call whose member it is stand behind one another, in an array:
four levels on the way to the argument. -/
theorem levels_of_called_member :
    (parse "[f(x).y + 1]" {}).root.Straight [0, 0, 0, 0, 0, 1] ∧
      (parse "[f(x).y + 1]" {}).root.levels [0, 0, 0, 0, 0, 1] = 4 ∧
        (parse "[f(x).y + 1]" {}).root.levels [0, 0, 0, 0, 0, 1] ≤ nestingLimit := by
  have hstraight : (parse "[f(x).y + 1]" {}).root.Straight [0, 0, 0, 0, 0, 1] := by
    decide +kernel
  refine ⟨hstraight, ?_, (parse_levels_le "[f(x).y + 1]" {} _).1 hstraight⟩
  decide +kernel

theorem root_parse_ofList (chars : List Char) (options : Options) :
    (parse (String.ofList chars) options).root =
      (parseTokens options Position.origin (Scan.tokens Position.origin chars)).1.root := by
  rw [parse, parseLogged, tokenize, String.toList_ofList]

/-- Two sums behind an operand that nests to the limit. -/
theorem exists_path_past_limit :
    ∃ path, nestingLimit < (parse
      (String.ofList (List.replicate 255 '!' ++ "x + 1 + 1".toList)) {}).root.levels path := by
  refine ⟨List.replicate 259 0, ?_⟩
  rw [root_parse_ofList]
  decide +kernel

end ScriptSyntax
