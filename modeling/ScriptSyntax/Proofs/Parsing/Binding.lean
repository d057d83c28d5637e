import ScriptSyntax.Proofs.Parsing.Admits
import ScriptSyntax.Proofs.Parsing.Regular
import ScriptSyntax.Proofs.Tree.WellFormed

/-!
How tightly what is read binds.  The operators of an expression bind tighter than the power that it is read
with, and it ends before an operator that is not taken into it, `Reads.binds`.  So the left operand of
each operator yields to it.
-/

namespace ScriptSyntax

/-- A form whose operands an operator stands before or between. -/
def NodeKind.isOperation : NodeKind → Bool
  | binaryExpr | inExpr | rangeExpr | memberAccess | subscript | unaryBang | awaitExpr => true
  | _ => false

namespace Node

/-- The operator at the root, if there is one, binds tighter than the power. -/
def Above (power : BindingPower) (n : Node) : Prop :=
  ∀ next form, n.operator? = some (next, form) → power < next

/-- The operator that comes next is not taken into the node. -/
def YieldsAt (s : State) (n : Node) : Prop :=
  ∀ next form, s.kind.operatorForm? = some (next, form) → n.yields next

variable {n : Node}

theorem operator?_of_plain (hkind : n.kind.isOperation = false) : n.operator? = none := by
  obtain ⟨kind, children, span, literal⟩ := n
  cases kind with
  | binaryExpr | inExpr | rangeExpr | memberAccess | subscript => cases hkind
  | _ => rfl

theorem yields_of_plain (hkind : n.kind.isOperation = false) (power : BindingPower) :
    n.yields power := by
  have hoperator := operator?_of_plain hkind
  unfold yields
  split
  · split
    · rename_i hprefix
      rcases hprefix with rfl | rfl
      · cases hkind
      · cases hkind
    · rfl
  · rw [hoperator]
  · rfl

theorem above_of_none {power : BindingPower} (h : n.operator? = none) : n.Above power := by
  intro next form hoperator
  rw [h] at hoperator
  cases hoperator

theorem yieldsAt_of_plain {s : State} (hkind : n.kind.isOperation = false) : n.YieldsAt s :=
  fun next _ _ => yields_of_plain hkind next

end Node

theorem operatorForm?_leftBracket {next : BindingPower} {form : OperatorForm}
    (h : TokenKind.leftBracket.operatorForm? = some (next, form)) :
    next = .member ∧ form = .subscript := by
  cases h
  exact ⟨rfl, rfl⟩

theorem State.le_of_pending_eq_none {s : State} {power next : BindingPower} {form : OperatorForm}
    (hpending : s.pending power = none) (hkind : s.kind.operatorForm? = some (next, form)) :
    next ≤ power := by
  refine Nat.le_of_not_lt fun hlt => ?_
  rw [State.pending_eq_some.mpr ⟨hkind, hlt⟩] at hpending
  cases hpending

/-- What a part that continues a node, or that is a list between brackets, may expect. -/
def Part.Follows (s : State) : Part → Prop
  | climb power left => left.IsExpression ∧ left.Above power ∧ left.YieldsAt s
  | continuation next left shape =>
      left.IsExpression ∧ s.kind.operatorForm? = some (next, shape) ∧ left.yields next
  | list _ closer _ _ => closer.operatorForm? = none
  | _ => True

/-- How a node of a part binds, when the parse goes on from the state behind it. -/
def Part.Binds (s' : State) (n : Node) : Part → Prop
  | expression power | climb power _ =>
      n.Above power ∧ n.YieldsAt s' ∧
        ∀ next form, s'.kind.operatorForm? = some (next, form) → next ≤ power
  | operand _ => n.operator? = none ∧ n.YieldsAt s'
  | continuation next _ shape => n.operator? = some (next, shape) ∧ n.YieldsAt s'
  | _ => True

theorem Item.follows_part (item : Item) (s : State) : item.part.Follows s := by
  cases item <;> exact trivial

theorem State.follows_statementPart (s t : State) : s.statementPart.Follows t := by
  unfold statementPart
  repeat' split
  all_goals exact trivial

theorem Part.Follows.isExpression {s : State} {part : Part} (h : part.Follows s) :
    ∀ left ∈ part.left?, left.IsExpression := by
  cases part with
  | climb power left =>
      rintro _ ⟨⟩
      exact h.1
  | continuation next left form =>
      rintro _ ⟨⟩
      exact h.1
  | _ => exact nofun

variable {clean : Bool} {part : Part} {nodes : List Node} {s s' : State}

theorem Part.Follows.continuation {power next : BindingPower} {form : OperatorForm} {left : Node}
    (h : (Part.climb power left).Follows s) (hkind : s.kind.operatorForm? = some (next, form)) :
    (Part.continuation next left form).Follows s.entered :=
  ⟨h.1, hkind, h.2.2 next form hkind⟩

theorem Reads.follows_operand {power : BindingPower} {form : OperandForm} {left : Node}
    (h : Reads clean (.operand form) [left] s s') (hbinds : (Part.operand form).Binds s' left) :
    (Part.climb power left).Follows s' :=
  ⟨h.admits_only nofun, Node.above_of_none hbinds.1, hbinds.2⟩

/-- The power of a climb stays the same while its left operand grows: the operator just taken is above it,
which is all that the rest of the climb asks for. -/
theorem Reads.follows_continuation {power next : BindingPower} {form : OperatorForm} {left folded : Node}
    (h : Reads clean (.continuation next left form) [folded] s s')
    (hfollows : (Part.continuation next left form).Follows s)
    (hbinds : (Part.continuation next left form).Binds s' folded) (hlt : power < next) :
    (Part.climb power folded).Follows s' := by
  refine ⟨h.admits_only (Part.Follows.isExpression hfollows), ?_, hbinds.2⟩
  intro taken form' htaken
  cases hbinds.1.symm.trans htaken
  exact hlt

theorem isOperation_literalKind? {kind : TokenKind} {literal : NodeKind}
    (h : Parser.literalKind? kind = some literal) : literal.isOperation = false := by
  obtain ⟨-, rfl⟩ | ⟨-, rfl⟩ | ⟨-, rfl⟩ := Parser.literalKind?_cases h
  all_goals rfl

theorem yieldsAt_prefix {kind : NodeKind} {operand : Node} {span : Span} {literal : Option String}
    (hkind : kind = .unaryBang ∨ kind = .awaitExpr)
    (h : (Part.expression .unary).Binds s' operand) :
    Node.YieldsAt s' ⟨kind, [operand], span, literal⟩ := by
  intro next form hnext
  have hle : next ≤ .unary := h.2.2 next form hnext
  rw [Node.yields, if_pos hkind, decide_eq_true hle, Bool.true_and]
  exact h.2.1 next form hnext

theorem Reads.binds (h : Reads clean part nodes s s') :
    s.Regular → part.Follows s → ∀ n ∈ nodes, part.Binds s' n := by
  induction h with
  | @gap power s _ _ hboundary =>
      intro hs _
      -- a gap is only left where no expression can go on, so no operator stands behind it
      have hnone := hs.operatorForm?_of_atBoundary hboundary
      refine List.forall_mem_singleton.mpr ⟨Node.above_of_none rfl, Node.yieldsAt_of_plain rfl, ?_⟩
      intro next form hkind
      cases hnone.symm.trans hkind
  | expression _ _ hoperand _ ihleft ihclimb =>
      intro hs _
      have hbinds := ihleft hs.entered trivial _ (List.mem_singleton_self _)
      exact ihclimb (hs.entered.reads hoperand) (hoperand.follows_operand hbinds)
  | climbStop hpending =>
      rintro _ ⟨-, habove, hyields⟩
      exact List.forall_mem_singleton.mpr
        ⟨habove, hyields, fun _ _ hkind => State.le_of_pending_eq_none hpending hkind⟩
  | climbFold hpending _ hfolded _ ihfolded ihclimb =>
      intro hs hleft
      obtain ⟨hkind, hlt⟩ := State.pending_eq_some.mp hpending
      have hfollows := hleft.continuation hkind
      have hbinds := ihfolded hs.entered hfollows _ (List.mem_singleton_self _)
      exact ihclimb (hs.entered.reads hfolded) (hfolded.follows_continuation hfollows hbinds hlt)
  | literal hkind =>
      intro _ _
      have hplain := isOperation_literalKind? hkind
      exact List.forall_mem_singleton.mpr
        ⟨Node.operator?_of_plain hplain, Node.yieldsAt_of_plain hplain⟩
  | name | call | array | object | lambda | macroCall | lexicalError =>
      intro _ _
      exact List.forall_mem_singleton.mpr
        ⟨Node.operator?_of_plain rfl, Node.yieldsAt_of_plain rfl⟩
  | awaitExpr _ _ ih =>
      intro hs _
      have hoperand := ih hs.advanced trivial _ (List.mem_singleton_self _)
      exact List.forall_mem_singleton.mpr ⟨rfl, yieldsAt_prefix (.inr rfl) hoperand⟩
  | bang _ _ ih =>
      intro hs _
      have hoperand := ih hs.advanced trivial _ (List.mem_singleton_self _)
      exact List.forall_mem_singleton.mpr ⟨rfl, yieldsAt_prefix (.inl rfl) hoperand⟩
  | operation hform hkind _ ih =>
      rintro hs ⟨-, -, hyields⟩
      have htext := hs.spelling hkind
      have hright := ih hs.advanced.pastNewlines trivial _ (List.mem_singleton_self _)
      refine List.forall_mem_singleton.mpr ⟨Node.operator?_operation hform hkind htext _ _ _, ?_⟩
      intro next form hnext
      rw [Node.yields_operation hform hkind htext, decide_eq_true (hright.2.2 next form hnext),
        Bool.true_and]
      exact hright.2.1 next form hnext
  | subscript hkind =>
      rintro hs ⟨-, hnext, -⟩
      rw [hkind] at hnext
      obtain ⟨rfl, -⟩ := operatorForm?_leftBracket hnext
      exact List.forall_mem_singleton.mpr ⟨rfl, fun _ _ _ => rfl⟩
  | _ => exact fun _ _ _ _ => trivial

end ScriptSyntax
