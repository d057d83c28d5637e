import ScriptSyntax.Proofs.Parsing.Openings
import ScriptSyntax.Proofs.Parsing.Spans

/-!
Where a statement stands.  It begins with its first token, and it ends no earlier than the last token that is
consumed for it.
-/

namespace ScriptSyntax

section
variable {last eof : Nat} {clean : Bool} {part : Part} {nodes : List Node} {s s' : State}

/-- The node that a part gives begins with the node that the part continues, or else with the next token,
and it reaches up to the last token consumed. -/
def Part.Reaches (s s' : State) (n : Node) : Part → Prop
  | .climb _ left | .continuation _ left _ =>
      n.span.start = left.span.start ∧
        (s.behind ≤ left.span.stop.offset → s'.behind ≤ n.span.stop.offset)
  | .expression _ | .operand _ | .block | .statement | .assignment | .form _ =>
      n.span.start = s.current.span.start ∧ s'.behind ≤ n.span.stop.offset
  | _ => True

theorem State.behind_advanced_le {s : State} (hkind : s.kind ≠ .endOfFile) :
    s.advanced.behind ≤ s.current.span.stop.offset :=
  Nat.le_of_eq (State.behind_advanced hkind)

theorem Reads.reaches (h : Reads clean part nodes s s') :
    s.Bounded last eof → ∀ n ∈ nodes, part.Reaches s s' n := by
  induction h with
  | gap =>
      intro hs
      exact List.forall_mem_singleton.mpr ⟨rfl, hs.behind_le_place⟩
  | @expression power form left node s s₁ s₂ _ _ hleft hclimb ihleft ihclimb =>
      intro hs
      have hs₀ := hs.advances s.advances_entered
      obtain ⟨hstart, hstop⟩ := List.forall_mem_singleton.mp (ihleft hs₀)
      obtain ⟨hstart', hstop'⟩ := List.forall_mem_singleton.mp (ihclimb (hs₀.advances hleft.advances))
      exact List.forall_mem_singleton.mpr ⟨hstart'.trans hstart, hstop' hstop⟩
  | climbStop => exact fun _ => List.forall_mem_singleton.mpr ⟨rfl, id⟩
  | @climbFold power next form left folded node s s₁ s₂ _ _ hfolded hclimb ihfolded ihclimb =>
      intro hs
      have hs₀ := hs.advances s.advances_entered
      obtain ⟨hstart, hstop⟩ := List.forall_mem_singleton.mp (ihfolded hs₀)
      obtain ⟨hstart', hstop'⟩ := List.forall_mem_singleton.mp (ihclimb (hs₀.advances hfolded.advances))
      exact List.forall_mem_singleton.mpr ⟨hstart'.trans hstart, fun hleft => hstop' (hstop hleft)⟩
  | @literal kind s hkind =>
      refine fun _ => List.forall_mem_singleton.mpr ⟨rfl, State.behind_advanced_le ?_⟩
      intro hend
      rw [hend] at hkind
      cases hkind
  | call | array | object | macroCall | openBlock | functionDecl | importPath | importAs | importNames
  | ifStmt =>
      -- the span of these forms runs up to the last token consumed
      exact fun _ => List.forall_mem_singleton.mpr ⟨rfl, Nat.le_refl _⟩
  | lambda _ hbefore _ _ ihbody | forStmt _ hbefore _ _ ihbody =>
      intro hs
      have hs₁ := hs.advances ((State.advances_advanced _).trans hbefore.advances)
      exact List.forall_mem_singleton.mpr ⟨rfl, (List.forall_mem_singleton.mp (ihbody hs₁)).2⟩
  | awaitExpr _ _ ihvalue | bang _ _ ihvalue | returnStmt _ _ _ ihvalue =>
      intro hs
      have hs₁ := hs.advances (State.advances_advanced _)
      exact List.forall_mem_singleton.mpr ⟨rfl, (List.forall_mem_singleton.mp (ihvalue hs₁)).2⟩
  | name hkind | lexicalError hkind | bareReturn hkind =>
      exact fun _ => List.forall_mem_singleton.mpr
        ⟨rfl, State.behind_advanced_le (State.kind_ne_of_eq hkind (by simp))⟩
  | operation _ _ _ ihright =>
      intro hs
      have hs₁ := hs.advances (State.advances_advanced_pastNewlines _)
      exact List.forall_mem_singleton.mpr
        ⟨rfl, fun _ => (List.forall_mem_singleton.mp (ihright hs₁)).2⟩
  | subscript _ _ hclosing =>
      exact fun _ => List.forall_mem_singleton.mpr
        ⟨rfl, fun _ => State.behind_advanced_le (State.kind_ne_of_eq hclosing (by simp))⟩
  | @block body s s₁ _ _ _ hclosing | @structDecl body s s₁ _ _ _ _ hclosing =>
      refine fun _ => List.forall_mem_singleton.mpr ⟨rfl, ?_⟩
      have hkind : s₁.closed.kind ≠ .endOfFile := State.kind_ne_of_eq hclosing (by simp)
      exact State.behind_advanced_le hkind
  | @statement node s s' _ ihform =>
      intro hs
      have hs₁ := ihform (hs.advances s.advances_begun)
      unfold State.statementPart at hs₁
      repeat' split at hs₁
      all_goals exact hs₁
  | bare _ _ ihvalue =>
      intro hs
      obtain ⟨hstart, hstop⟩ := List.forall_mem_singleton.mp (ihvalue hs)
      exact List.forall_mem_singleton.mpr ⟨hstart, hstop⟩
  | @assign kind target value s s₁ s₂ htarget _ _ _ ihtarget ihvalue
  | @misassign kind target value s s₁ s₂ htarget _ _ _ _ ihtarget ihvalue =>
      intro hs
      have hs₁ := hs.advances (htarget.advances.trans s₁.advances_advanced)
      exact List.forall_mem_singleton.mpr ⟨(List.forall_mem_singleton.mp (ihtarget hs)).1,
        (List.forall_mem_singleton.mp (ihvalue hs₁)).2⟩
  | macroDecl _ _ hparameters _ _ ihbody =>
      intro hs
      have hs₁ := hs.advances ((State.advances_advanced_twice _).trans hparameters.advances)
      exact List.forall_mem_singleton.mpr ⟨rfl, (List.forall_mem_singleton.mp (ihbody hs₁)).2⟩
  | _ => exact fun _ _ _ => trivial

/-- What begins a statement begins a form of statement or an operand, unless a gap can stand there. -/
theorem Reads.begins_statement {node : Node} (h : Reads clean .statement [node] s s')
    (hboundary : s.atBoundary = false) : s.kind.statementForm? ≠ none ∨ s.kind.operandForm? ≠ none := by
  cases hform : s.kind.statementForm? with
  | some form => exact .inl nofun
  | none =>
      right
      intro hoperand
      have hexpression : ∀ {power target s₁}, ¬Reads clean (.expression power) [target] s.begun s₁ := by
        intro power target s₁ htarget
        cases htarget with
        | gap _ _ hgap =>
            have hgap : s.atBoundary = true := hgap
            rw [hboundary] at hgap
            cases hgap
        | expression _ hsome => exact absurd (hoperand.symm.trans hsome) nofun
      cases h with
      | statement h =>
          simp only [State.statementPart, hform] at h
          cases h with
          | bare hvalue => exact hexpression hvalue
          | assign htarget => exact hexpression htarget
          | misassign htarget => exact hexpression htarget

end

namespace Parser

variable {last eof : Nat} {s s' : State} {node : Node}

theorem span_of_statement (hs : s.Bounded last eof) (hready : s.Ready)
    (hrun : statement s = .ok node s') :
    node.span.start = s.current.span.start ∧ s.current.span.stop.offset ≤ node.span.stop.offset := by
  have hreads := reads_of_statement hrun
  obtain ⟨hstart, hstop⟩ := List.forall_mem_singleton.mp (hreads.reaches hs)
  have hconsumed := length_lt_of_statement hready hrun
  refine ⟨hstart, ?_⟩
  rcases hs.places hreads.advances with hsame | ⟨hbehind, -⟩
  · omega
  · exact Nat.le_trans hbehind hstop

theorem clauseKind?_of_statement (hready : s.Ready) (hrun : statement s = .ok node s') :
    clauseKind? s.kind = none := by
  have hbegins := (reads_of_statement hrun).begins_statement hready.boundary
  unfold clauseKind?
  split
  · rename_i hkind
    simp [hkind, TokenKind.statementForm?, TokenKind.operandForm?] at hbegins
  · rename_i hkind
    simp [hkind, TokenKind.statementForm?, TokenKind.operandForm?] at hbegins
  · rfl

end Parser

end ScriptSyntax
