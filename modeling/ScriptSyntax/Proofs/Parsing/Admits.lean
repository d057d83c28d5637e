import ScriptSyntax.Proofs.Parsing.Grammar
import ScriptSyntax.Proofs.Tree.Shape

/-!
What stands in a part of the grammar: the kind of node that each part gives, with the error nodes that can
take its place, `Reads.admits`, and the order of the members of a structure and of the clauses of an `if`.
-/

namespace ScriptSyntax

/-- The node that a statement of the form is. -/
def StatementForm.nodeKind : StatementForm → NodeKind
  | functionDecl => .functionDecl
  | macroDecl => .macroDecl
  | structDecl => .structDecl
  | importStmt => .importStmt
  | forStmt => .forStmt
  | ifStmt => .ifStmt
  | returnStmt => .returnStmt

theorem StatementForm.isStatement_nodeKind (form : StatementForm) : form.nodeKind.isStatement := by
  cases form <;> rfl

theorem OperatorForm.isExpression_nodeKind (form : OperatorForm) : form.nodeKind.isExpression := by
  cases form <;> rfl

theorem isExpression_literalKind? {kind : TokenKind} {literal : NodeKind}
    (h : Parser.literalKind? kind = some literal) : literal.isExpression := by
  obtain ⟨-, rfl⟩ | ⟨-, rfl⟩ | ⟨-, rfl⟩ := Parser.literalKind?_cases h
  all_goals rfl

theorem isStatement_assignmentKind? {kind : TokenKind} {assignment : NodeKind}
    (h : Parser.assignmentKind? kind = some assignment) : assignment.isStatement := by
  obtain ⟨-, rfl⟩ | ⟨-, rfl⟩ | ⟨-, rfl⟩ := Parser.assignmentKind?_cases h
  all_goals rfl

open Node (IsExpression IsStatement IsBody IsGap Wraps IsPath IsLateMember IsLateClause AreMembers
  AreClauses Shaped)

def Item.Admits : Item → Node → Prop
  | name => fun n => n.kind = .identifier
  | expression => IsExpression
  | entry => fun n => n.kind = .keyValuePair

/-- What each node of a part is. -/
def Part.Admits : Part → Node → Prop
  | expression _ | climb _ _ | operand _ | continuation _ _ _ => IsExpression
  | name | moreSegments => fun n => n.kind = .identifier
  | entry => fun n => n.kind = .keyValuePair
  | list _ _ _ item | more item => item.Admits
  | parameters => fun n => n.kind = .parameterList
  | block => IsBody
  | statements _ => IsStatement
  | statement | assignment => fun n => n.kind.isStatement
  | form shape => fun n => n.kind = shape.nodeKind
  | member seenMethod isMethod => fun n =>
      if isMethod then n.kind = .functionDecl
      else if seenMethod then n.Wraps (·.kind = .structField) else n.kind = .structField
  | members seenMethod => fun n => seenMethod → n.IsLateMember
  | field => fun n => n.kind = .structField
  | path => IsPath
  | clause isElse => fun n => n.kind = if isElse then .elseClause else .elifClause
  | clauses seenElse => fun n => seenElse → n.IsLateClause
  | segments => fun _ => True

variable {clean : Bool} {part : Part} {nodes : List Node} {s s' : State}

theorem Item.admits_part {item : Item} {n : Node} : item.part.Admits n ↔ item.Admits n := by
  cases item <;> rfl

theorem State.isStatement_of_statementPart {n : Node} (h : s.statementPart.Admits n) :
    n.kind.isStatement := by
  unfold statementPart at h
  split at h
  · exact h
  · split at h
    · exact h
    · rename_i form _ _
      have hkind : n.kind = form.nodeKind := h
      rw [hkind]
      exact form.isStatement_nodeKind

theorem isGap_error (span : Span) : (Node.error span []).IsGap := ⟨rfl, rfl⟩

theorem Reads.admits (h : Reads clean part nodes s s') :
    (∀ left ∈ part.left?, left.IsExpression) → ∀ n ∈ nodes, part.Admits n := by
  induction h with
  | gap | lexicalError =>
      intro _ n hn
      obtain rfl := List.mem_singleton.mp hn
      exact .inr (isGap_error _)
  | expression _ _ _ _ ihleft ihclimb =>
      intro _
      refine ihclimb fun left hleft => ?_
      obtain rfl := Option.mem_some.mp hleft
      exact ihleft nofun _ (List.mem_singleton_self _)
  | climbStop =>
      intro hleft n hn
      obtain rfl := List.mem_singleton.mp hn
      exact hleft _ rfl
  | climbFold _ _ _ _ ihfolded ihclimb =>
      intro hleft
      refine ihclimb fun folded hfolded => ?_
      obtain rfl := Option.mem_some.mp hfolded
      exact ihfolded hleft _ (List.mem_singleton_self _)
  | literal hkind =>
      intro _ n hn
      obtain rfl := List.mem_singleton.mp hn
      exact .inl (isExpression_literalKind? hkind)
  | @operation _ _ _ form =>
      intro _ n hn
      obtain rfl := List.mem_singleton.mp hn
      exact .inl form.isExpression_nodeKind
  | name | call | array | object | lambda | macroCall | awaitExpr | bang | subscript =>
      intro _ n hn
      obtain rfl := List.mem_singleton.mp hn
      exact .inl rfl
  | identifier | entry | parameters | bare | functionDecl | macroDecl | structDecl | field
  | importPath | importAs | importNames | forStmt | ifStmt | elseClause | elifClause | bareReturn
  | returnStmt =>
      intro _ n hn
      obtain rfl := List.mem_singleton.mp hn
      rfl
  | emptyList | noMore | noStatements | noMembers | noMoreSegments | noClauses => exact nofun
  | items _ _ _ _ ihfirst ihrest | more _ _ _ ihfirst ihrest =>
      intro _
      refine List.forall_mem_cons.mpr ⟨?_, ihrest nofun⟩
      exact Item.admits_part.mp (ihfirst (by simp) _ (List.mem_singleton_self _))
  | block =>
      intro _ n hn
      obtain rfl := List.mem_singleton.mp hn
      exact .inl rfl
  | openBlock _ _ _ _ _ ih =>
      intro _ n hn
      obtain rfl := List.mem_singleton.mp hn
      exact .inr ⟨rfl, ih nofun⟩
  | whole _ _ _ _ ihstatement ihrest =>
      intro _
      exact List.forall_mem_cons.mpr
        ⟨.inl (ihstatement nofun _ (List.mem_singleton_self _)), ihrest nofun⟩
  | joined _ _ _ _ _ _ ihstatement ihrest =>
      intro _
      have hstatement := ihstatement nofun _ (List.mem_singleton_self _)
      exact List.forall_mem_cons.mpr
        ⟨.inl hstatement, List.forall_mem_cons.mpr ⟨.inr (isGap_error _), ihrest nofun⟩⟩
  | broken _ _ _ _ _ ih =>
      intro _
      exact List.forall_mem_cons.mpr ⟨.inr (isGap_error _), ih nofun⟩
  | statement _ ih =>
      intro _ n hn
      exact State.isStatement_of_statementPart (ih (by simp) n hn)
  | assign _ hkind | misassign _ hkind =>
      intro _ n hn
      obtain rfl := List.mem_singleton.mp hn
      exact isStatement_assignmentKind? hkind
  | @members seenMethod isMethod _ _ _ _ _ _ _ _ ihmember ihrest =>
      intro _
      refine List.forall_mem_cons.mpr ⟨?_, fun n hn hseen => ihrest nofun n hn (by simp [hseen])⟩
      rintro rfl
      have hnode := ihmember nofun _ (List.mem_singleton_self _)
      cases isMethod with
      | true => exact .inl hnode
      | false => exact .inr hnode
  | method _ _ ih => exact ih
  | earlyField _ ih => exact ih
  | lateField _ _ ih =>
      intro _ n hn
      obtain rfl := List.mem_singleton.mp hn
      exact ⟨_, ih nofun _ (List.mem_singleton_self _), rfl⟩
  | @knownPath _ s _ _ _ _ hscheme =>
      intro _ n hn
      obtain rfl := List.mem_singleton.mp hn
      exact .inl ⟨rfl, s.current.text, by simpa using hscheme, rfl⟩
  | @unknownPath _ s _ _ _ _ hscheme =>
      intro _ n hn
      obtain rfl := List.mem_singleton.mp hn
      refine .inr ⟨_, ⟨rfl, ?_⟩, rfl⟩
      rintro scheme hknown ⟨⟩
      simp [hknown] at hscheme
  | address | segments => exact fun _ _ _ => trivial
  | moreSegments _ _ _ ih =>
      intro _
      exact List.forall_mem_cons.mpr ⟨rfl, ih nofun⟩
  | clauses => exact nofun
  | @lateClause isElse _ _ _ _ _ _ _ _ _ ihnode ihrest =>
      intro _
      refine List.forall_mem_cons.mpr ⟨fun _ => ?_, ihrest nofun⟩
      have hnode := ihnode nofun _ (List.mem_singleton_self _)
      cases isElse with
      | false => exact ⟨_, .inl hnode, rfl⟩
      | true => exact ⟨_, .inr hnode, rfl⟩

theorem Reads.admits_only {n : Node} (h : Reads clean part [n] s s')
    (hleft : ∀ left ∈ part.left?, left.IsExpression) : part.Admits n :=
  h.admits hleft n (List.mem_singleton_self n)

theorem Reads.areMembers (h : Reads clean part nodes s s') :
    part = .members false → AreMembers nodes := by
  induction h with
  | noMembers =>
      rintro ⟨⟩
      exact ⟨[], [], rfl, nofun, nofun, nofun⟩
  | @members _ isMethod node rest _ _ _ hmember _ hrest _ ih =>
      rintro ⟨⟩
      have hnode := hmember.admits_only nofun
      cases isMethod with
      | true =>
          have hlater : ∀ member ∈ rest, member.IsLateMember := fun member hmem =>
            hrest.admits nofun member hmem rfl
          refine ⟨[], node :: rest, rfl, nofun, ?_, List.forall_mem_cons.mpr ⟨.inl hnode, hlater⟩⟩
          rintro _ ⟨⟩
          exact hnode
      | false =>
          obtain ⟨fields, later, rfl, hfields, hfirst, hlater⟩ := ih rfl
          exact ⟨node :: fields, later, rfl, List.forall_mem_cons.mpr ⟨hnode, hfields⟩, hfirst, hlater⟩
  | _ => exact nofun

theorem Reads.areClauses (h : Reads clean part nodes s s') :
    part = .clauses false → AreClauses nodes := by
  induction h with
  | noClauses =>
      rintro ⟨⟩
      exact ⟨[], [], [], rfl, nofun, nofun, Nat.zero_le _, nofun, nofun⟩
  | @clauses isElse node rest _ _ _ _ hclause hrest _ ih =>
      rintro ⟨⟩
      have hnode := hclause.admits_only nofun
      cases isElse with
      | true =>
          have hlate : ∀ clause ∈ rest, clause.IsLateClause := fun clause hmem =>
            hrest.admits nofun clause hmem rfl
          exact ⟨[], [node], rest, rfl, nofun, List.forall_mem_singleton.mpr hnode, Nat.le_refl _,
            hlate, nofun⟩
      | false =>
          obtain ⟨conditional, last, late, rfl, hconditional, hrest⟩ := ih rfl
          exact ⟨node :: conditional, last, late, rfl,
            List.forall_mem_cons.mpr ⟨hnode, hconditional⟩, hrest⟩
  | _ => exact nofun

theorem Reads.segments_cases (h : Reads clean .segments nodes s s') :
    (∃ address, nodes = [address] ∧ address.kind = .stringLit) ∨
      nodes ≠ [] ∧ ∀ segment ∈ nodes, segment.kind = .identifier := by
  cases h with
  | address => exact .inl ⟨_, rfl, rfl⟩
  | segments _ hrest =>
      exact .inr ⟨List.cons_ne_nil _ _, List.forall_mem_cons.mpr ⟨rfl, hrest.admits nofun⟩⟩

end ScriptSyntax
