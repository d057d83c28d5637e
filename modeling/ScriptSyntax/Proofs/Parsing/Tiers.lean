import ScriptSyntax.Proofs.Parsing.Shape

/-!
Operators keep to their tiers.  The tier of an operator node is read off the node alone; how it limits the
operands of the node follows from what the parse does not take into an operand, for broken scripts too.
-/

namespace ScriptSyntax

/-- An operator between two operands, or an index behind one. -/
def NodeKind.isInfix : NodeKind → Bool
  | binaryExpr | inExpr | rangeExpr | memberAccess | subscript => true
  | _ => false

def binaryTier? (operator : String) : Option BindingPower :=
  if operator ∈ ["&&", "||", "and", "or"] then some .logical
  else if operator ∈ ["==", "!=", "<", "<=", ">", ">="] then some .relational
  else if operator ∈ ["+", "-"] then some .additive
  else if operator ∈ ["*", "/", "%"] then some .multiplicative
  else none

namespace Node

def tier? (n : Node) : Option BindingPower :=
  match n.kind with
  | .inExpr => some .membership
  | .rangeExpr => some .range
  | .binaryExpr => n.literal.bind binaryTier?
  | .memberAccess | .subscript => some .member
  | _ => none

/-- If the node is infix, its tier is at least the given one. -/
def BindsFrom (tier : BindingPower) (n : Node) : Prop :=
  n.kind.isInfix → ∃ own, n.tier? = some own ∧ tier ≤ own

/-- If the node is infix, its tier is above the given one. -/
def BindsAbove (tier : BindingPower) (n : Node) : Prop :=
  n.kind.isInfix → ∃ own, n.tier? = some own ∧ tier < own

def IsNoPrefix (n : Node) : Prop := n.kind ≠ .unaryBang ∧ n.kind ≠ .awaitExpr

/-- The operands of an operator node bind as its tier asks for: tighter than the operator to the right, and
as tightly or tighter to the left, but the other way round for ranges, which group to the right. -/
def KeepsTiers (n : Node) : Prop :=
  match n.kind with
  | .binaryExpr | .inExpr => ∃ tier left right, n.tier? = some tier ∧ n.children = [left, right] ∧
      left.BindsFrom tier ∧ right.BindsAbove tier
  | .rangeExpr => ∃ left right, n.children = [left, right] ∧
      left.BindsAbove .range ∧ right.BindsFrom .range
  | .memberAccess => ∃ left right, n.children = [left, right] ∧
      left.BindsFrom .member ∧ left.IsNoPrefix ∧ right.BindsAbove .member
  | .subscript => ∃ left index, n.children = [left, index] ∧
      left.BindsFrom .member ∧ left.IsNoPrefix
  | .unaryBang | .awaitExpr => ∃ operand, n.children = [operand] ∧
      (operand.kind.isInfix → operand.kind = .memberAccess ∨ operand.kind = .subscript)
  | _ => True

end Node

theorem operatorForm?_binary : ∀ operator ∈ binaryOperators,
    (binaryTier? operator).isSome ∧
      (TokenKind.ofWord operator).operatorForm? = (binaryTier? operator).map (·, .binary) := by
  decide

theorem range_lt_binaryTier? {operator : String} {tier : BindingPower}
    (h : binaryTier? operator = some tier) : .range < tier ∧ tier < .unary := by
  unfold binaryTier? at h
  split at h
  · cases h
    decide
  · split at h
    · cases h
      decide
    · split at h
      · cases h
        decide
      · split at h
        · cases h
          decide
        · cases h

theorem le_member {kind : TokenKind} {next : BindingPower} {form : OperatorForm}
    (h : kind.operatorForm? = some (next, form)) : next ≤ .member := by
  unfold TokenKind.operatorForm? at h
  split at h <;> cases h
  all_goals decide

theorem OperatorForm.rightPower_le (form : OperatorForm) (next : BindingPower) :
    form.rightPower next ≤ next := by
  cases form with
  | range =>
      show next.weaker.rank ≤ next.rank
      rw [next.rank_weaker]
      exact Nat.sub_le _ _
  | subscript => exact Nat.zero_le _
  | _ => exact Nat.le_refl _

namespace Node

theorem Shaped.exists_operator {n : Node} (h : n.Shaped) (hnode : n.kind.isInfix) :
    ∃ next form, n.operator? = some (next, form) ∧ n.tier? = some next ∧ form.nodeKind = n.kind := by
  obtain ⟨kind, children, span, literal⟩ := n
  have hliteral := h.literal
  cases kind with
  | binaryExpr =>
      obtain ⟨text, hmem, rfl⟩ := hliteral
      obtain ⟨hsome, hform⟩ := operatorForm?_binary text hmem
      obtain ⟨tier, htier⟩ := Option.isSome_iff_exists.mp hsome
      rw [htier] at hform
      exact ⟨tier, .binary, hform, htier, rfl⟩
  | inExpr => exact ⟨.membership, .membership, rfl, rfl, rfl⟩
  | rangeExpr => exact ⟨.range, .range, rfl, rfl, rfl⟩
  | memberAccess => exact ⟨.member, .member, rfl, rfl, rfl⟩
  | subscript => exact ⟨.member, .subscript, rfl, rfl, rfl⟩
  | _ => cases hnode

theorem Shaped.tier?_eq {n : Node} (h : n.Shaped) {next : BindingPower} {form : OperatorForm}
    (hoperator : n.operator? = some (next, form)) : n.tier? = some next := by
  have hnode : n.kind.isInfix := by
    obtain ⟨kind, children, span, literal⟩ := n
    cases kind with
    | binaryExpr | inExpr | rangeExpr | memberAccess | subscript => rfl
    | _ => cases hoperator
  obtain ⟨own, form', hoperator', htier, -⟩ := h.exists_operator hnode
  cases hoperator.symm.trans hoperator'
  exact htier

/-- An infix node that yields to an operator reads its right operand with no weaker power, unless it is
closed by a bracket. -/
theorem Shaped.le_rightPower {n : Node} (h : n.Shaped) {next : BindingPower}
    (hyields : n.yields next) (hnode : n.kind.isInfix) :
    ∃ own form, n.operator? = some (own, form) ∧ n.tier? = some own ∧ form.nodeKind = n.kind ∧
      (form = .subscript ∨ next ≤ form.rightPower own) := by
  obtain ⟨own, form, hoperator, htier, hkind⟩ := h.exists_operator hnode
  refine ⟨own, form, hoperator, htier, hkind, ?_⟩
  have harity : n.kind.fixedArity? = some 2 := by
    rw [← hkind]
    cases form <;> rfl
  obtain ⟨left, right, hchildren⟩ := List.length_eq_two.mp (h.parts.arity harity)
  obtain ⟨kind, children, span, literal⟩ := n
  obtain rfl : children = [left, right] := hchildren
  rw [yields, hoperator] at hyields
  cases form with
  | subscript => exact .inl rfl
  | _ =>
      obtain ⟨hpower, -⟩ := (Bool.and_eq_true _ _).mp hyields
      exact .inr (of_decide_eq_true hpower)

theorem Shaped.bindsFrom {n : Node} (h : n.Shaped) {next : BindingPower} (hmember : next ≤ .member)
    (hyields : n.yields next) : n.BindsFrom next := by
  intro hnode
  obtain ⟨own, form, -, htier, hkind, hpower⟩ := h.le_rightPower hyields hnode
  refine ⟨own, htier, ?_⟩
  rcases hpower with rfl | hpower
  · rw [tier?, ← hkind] at htier
    cases htier
    exact hmember
  · exact Nat.le_trans hpower (form.rightPower_le own)

theorem Shaped.bindsAbove_range {n : Node} (h : n.Shaped) (hyields : n.yields .range) :
    n.BindsAbove .range := by
  intro hnode
  obtain ⟨own, form, -, htier, hkind, hpower⟩ := h.le_rightPower hyields hnode
  refine ⟨own, htier, ?_⟩
  rw [tier?, ← hkind] at htier
  cases form with
  | binary =>
      obtain ⟨text, -, htext⟩ := Option.bind_eq_some_iff.mp htier
      exact (range_lt_binaryTier? htext).1
  | membership =>
      cases htier
      rcases hpower with hform | hpower
      · cases hform
      · exact absurd hpower (by decide)
  | range =>
      cases htier
      rcases hpower with hform | hpower
      · cases hform
      · exact absurd hpower (by decide)
  | member =>
      cases htier
      decide
  | subscript =>
      cases htier
      decide

theorem Shaped.isNoPrefix {n : Node} (h : n.Shaped) (hyields : n.yields .member) : n.IsNoPrefix := by
  have hno : ¬(n.kind = .unaryBang ∨ n.kind = .awaitExpr) := by
    intro hprefix
    have harity : n.kind.fixedArity? = some 1 := by
      rcases hprefix with hkind | hkind
      · rw [hkind]
        rfl
      · rw [hkind]
        rfl
    obtain ⟨operand, hchildren⟩ := List.length_eq_one_iff.mp (h.parts.arity harity)
    obtain ⟨kind, children, span, literal⟩ := n
    obtain rfl : children = [operand] := hchildren
    rw [yields, if_pos hprefix] at hyields
    cases hyields
  exact not_or.mp hno

theorem Shaped.bindsAbove {n : Node} (h : n.Shaped) {power : BindingPower} (habove : n.Above power) :
    n.BindsAbove power := by
  intro hnode
  obtain ⟨own, form, hoperator, htier, -⟩ := h.exists_operator hnode
  exact ⟨own, htier, habove own form hoperator⟩

theorem keepsTiers_of_plain {n : Node} (h : n.kind.isOperation = false) : n.KeepsTiers := by
  obtain ⟨kind, children, span, literal⟩ := n
  cases kind with
  | binaryExpr | inExpr | rangeExpr | memberAccess | subscript | unaryBang | awaitExpr => cases h
  | _ => exact trivial

theorem Shaped.member_of_above_unary {n : Node} (h : n.Shaped) (habove : n.Above .unary)
    (hnode : n.kind.isInfix) : n.kind = .memberAccess ∨ n.kind = .subscript := by
  obtain ⟨own, form, hoperator, htier, hkind⟩ := h.exists_operator hnode
  have hlt := habove own form hoperator
  rw [tier?, ← hkind] at htier
  rw [← hkind]
  cases form with
  | binary =>
      obtain ⟨text, -, htext⟩ := Option.bind_eq_some_iff.mp htier
      exact absurd (range_lt_binaryTier? htext).2 (Nat.lt_asymm hlt)
  | membership =>
      cases htier
      exact absurd hlt (by decide)
  | range =>
      cases htier
      exact absurd hlt (by decide)
  | member => exact .inl rfl
  | subscript => exact .inr rfl

end Node

theorem isOperation_assignmentKind? {kind : TokenKind} {assignment : NodeKind}
    (h : Parser.assignmentKind? kind = some assignment) : assignment.isOperation = false := by
  obtain ⟨-, rfl⟩ | ⟨-, rfl⟩ | ⟨-, rfl⟩ := Parser.assignmentKind?_cases h
  all_goals rfl

/-- An operator node keeps the tiers of its operands wherever it comes from. -/
theorem Origin.keepsTiers {first : State} {n : Node} (h : Origin first n)
    (hbelow : ∀ child ∈ n.children, child.Shaped) :
    n.KeepsTiers := by
  have hshaped := h.shaped
  cases h with
  | made hs hfollows hmakes hreads =>
      cases hreads with
      | literal hkind => exact Node.keepsTiers_of_plain (isOperation_literalKind? hkind)
      | assign _ hkind | misassign _ hkind =>
          exact Node.keepsTiers_of_plain (isOperation_assignmentKind? hkind)
      | awaitExpr _ hoperand | bang _ hoperand =>
          have hbinds := hoperand.binds hs.advanced.toRegular trivial _ (List.mem_singleton_self _)
          have hoperand' := hbelow _ (List.mem_singleton_self _)
          exact ⟨_, rfl, hoperand'.member_of_above_unary hbinds.1⟩
      | @operation next left right form _ _ hform hkind hright =>
          obtain ⟨-, hnext, hyields⟩ := hfollows
          obtain ⟨habove, -⟩ :=
            hright.binds hs.advanced.pastNewlines.toRegular trivial _ (List.mem_singleton_self _)
          have hleft := hbelow left (by simp)
          have hbehind := hbelow right (by simp)
          have hfrom := hleft.bindsFrom (le_member hnext) hyields
          have htier := hshaped.tier?_eq
            (Node.operator?_operation hform hkind (hs.spelling hkind) _ _ _)
          cases form with
          | binary | membership =>
              exact ⟨next, left, right, htier, rfl, hfrom, hbehind.bindsAbove habove⟩
          | range =>
              -- ranges group to the right: the right operand is read with the power below theirs
              cases htier
              refine ⟨left, right, rfl, hleft.bindsAbove_range hyields, ?_⟩
              intro hnode
              exact hbehind.bindsAbove habove hnode
          | member =>
              cases htier
              exact ⟨left, right, rfl, hfrom, hleft.isNoPrefix hyields, hbehind.bindsAbove habove⟩
          | subscript => exact absurd rfl hform
      | @subscript _ left _ _ _ hkind =>
          obtain ⟨-, hnext, hyields⟩ := hfollows
          rw [hkind] at hnext
          obtain ⟨rfl, -⟩ := operatorForm?_leftBracket hnext
          have hleft := hbelow left (by simp [Node.branch])
          exact ⟨_, _, rfl, hleft.bindsFrom (Nat.le_refl _) hyields, hleft.isNoPrefix hyields⟩
      | _ => first | exact Node.keepsTiers_of_plain rfl | cases hmakes
  | _ => exact Node.keepsTiers_of_plain rfl

/-- Every operator of a parse keeps to its tier, whether the source is well formed or not. -/
theorem parse_keepsTiers (source : String) (options : Options) :
    (parse source options).root.Every Node.KeepsTiers := by
  obtain ⟨body, s', hroot, -, hreads, -⟩ := parse_reads source options
  have hbelow := hreads.every_origin (State.regular_ofSource source options).within trivial nofun
  rw [hroot]
  refine Node.every_iff.mpr ⟨trivial, ?_⟩
  intro child hchild
  refine Node.Every.mono (Node.Every.children (hbelow child hchild)) ?_
  rintro n ⟨hn, hchildren⟩
  exact hn.keepsTiers fun m hm => (hchildren m hm).shaped

end ScriptSyntax
