import ScriptSyntax.Proofs.Parsing.Tiers

/-!
The levels of nesting along the paths of a tree.  A reading enters at once `nesting` levels at most, and
what a path meets is bounded by that: by the number itself where the path keeps clear of operators behind a
deep operand, `levels_le_nesting`, and by the sum of all numbers up to it everywhere,
`levels_le_triangle`.
-/

namespace ScriptSyntax

/-- A form that takes a level of nesting. -/
def NodeKind.takesLevel : NodeKind → Bool
  | block | arrayLit | objectLit | functionCall | macroCall | lambda | unaryBang | awaitExpr | binaryExpr
  | inExpr | rangeExpr | memberAccess | subscript => true
  | _ => false

namespace Node

/-- The levels that the node takes itself. -/
def level (n : Node) : Nat :=
  if n.kind.takesLevel then 1 else 0

/-- The levels that the nodes along a path take.  The path says for each node to which of its children it
goes on, and ends early where there is no such child. -/
def levels : List Nat → Node → Nat
  | [], n => n.level
  | index :: path, n =>
      match n.children[index]? with
      | some child => n.level + child.levels path
      | none => n.level

/-- Where the path goes to the left operand of an operator, it meets no more levels there than the
operators of that operand keep open. -/
def Straight : List Nat → Node → Prop
  | [], _ => True
  | index :: path, n =>
      match n.children[index]? with
      | some child =>
          (n.kind.isInfix → index = 0 → child.levels path ≤ child.opened) ∧ child.Straight path
      | none => True

instance decidableStraight : (path : List Nat) → (n : Node) → Decidable (n.Straight path)
  | [], _ => inferInstanceAs (Decidable True)
  | index :: path, n =>
      match hchild : n.children[index]? with
      | some child =>
          have := decidableStraight path child
          decidable_of_iff ((n.kind.isInfix → index = 0 → child.levels path ≤ child.opened) ∧
            child.Straight path) (by simp [Straight, hchild])
      | none => isTrue (by simp [Straight, hchild])

variable {n child left : Node} {index : Nat} {path : List Nat}

theorem levels_cons (hchild : n.children[index]? = some child) :
    n.levels (index :: path) = n.level + child.levels path := by
  simp [levels, hchild]

theorem levels_of_children_eq_nil (h : n.children = []) : n.levels path = n.level := by
  cases path with
  | nil => rfl
  | cons index path => simp [levels, h]

theorem nesting_eq (n : Node) : n.nesting = levelsAround n (n.children.map nesting) := by
  cases n
  exact nesting_mk _ _ _ _

theorem nesting_le_highest {nodes : List Node} (h : child ∈ nodes) :
    child.nesting ≤ highest (nodes.map nesting) :=
  le_highest (List.mem_map_of_mem h)

theorem level_le_nesting (n : Node) : n.level ≤ n.nesting := by
  rw [nesting_eq]
  obtain ⟨kind, children, span, literal⟩ := n
  cases kind with
  | binaryExpr | inExpr | rangeExpr | memberAccess | subscript =>
      refine Nat.le_trans ?_ (Nat.le_max_right _ _)
      exact Nat.le_add_right_of_le (Nat.le_add_left _ _)
  | block | arrayLit | objectLit | functionCall | macroCall | lambda | unaryBang | awaitExpr =>
      exact Nat.le_add_left _ _
  | _ => exact Nat.zero_le _

theorem level_le_one (n : Node) : n.level ≤ 1 := by
  unfold level
  split <;> decide

theorem one_le_opened (n : Node) : 1 ≤ n.opened := by
  unfold opened
  split
  · split
    · exact Nat.le_add_left _ _
    · exact Nat.le_refl _
  · exact Nat.le_refl _

theorem IsPath.nesting_eq (h : n.IsPath) : n.nesting = 0 := by
  have hpath : ∀ path : Node, path.kind = .importPath → path.nesting = 0 := by
    intro path hkind
    rw [Node.nesting_eq, levelsAround, hkind]
  rcases h with ⟨hkind, -⟩ | ⟨path, ⟨hkind, -⟩, rfl⟩
  · exact hpath n hkind
  · rw [Node.nesting_eq]
    simp [levelsAround, errorWrapping, error, hpath path hkind]

/-- A node that is a single token. -/
def IsWord (n : Node) : Prop := n.kind = .identifier ∨ n.kind = .stringLit

theorem IsWord.levels (hword : n.IsWord) (h : n.Shaped) : n.levels path = 0 := by
  have hparts := h.parts
  have hlevel : n.level = 0 := by
    rcases hword with hkind | hkind
    · simp [level, hkind, NodeKind.takesLevel]
    · simp [level, hkind, NodeKind.takesLevel]
  rw [levels_of_children_eq_nil, hlevel]
  rcases hword with hkind | hkind
  · rwa [HasParts, hkind] at hparts
  · rwa [HasParts, hkind] at hparts

theorem isWord_or_nesting_le {first : Node} {rest : List Node} (hfirst : first.IsWord)
    (hchild : child ∈ first :: rest) :
    child.IsWord ∨ child.nesting ≤ highest (rest.map nesting) := by
  rcases List.mem_cons.mp hchild with rfl | hrest
  · exact .inl hfirst
  · exact .inr (nesting_le_highest hrest)

/-- A child takes its levels besides the level of the node, unless it is a single token or the left operand
of an operator. -/
theorem Shaped.child_cases (h : n.Shaped) (hchild : n.children[index]? = some child) :
    child.IsWord ∨ (n.kind.isInfix ∧ index = 0) ∨ n.level + child.nesting ≤ n.nesting := by
  have hparts := h.parts
  have hmem := List.mem_of_getElem? hchild
  rw [Node.nesting_eq n]
  obtain ⟨kind, children, span, literal⟩ := n
  have hbelow : child.nesting ≤ highest (children.map nesting) := nesting_le_highest hmem
  cases kind with
  | binaryExpr | inExpr | rangeExpr | memberAccess | subscript =>
      obtain ⟨left, right, rfl, -, -⟩ := hparts
      cases index with
      | zero => exact .inr (.inl ⟨rfl, rfl⟩)
      | succ index =>
          obtain rfl : child = right := List.mem_singleton.mp (List.mem_of_getElem? hchild)
          refine .inr (.inr ?_)
          simp only [levelsAround, level, NodeKind.takesLevel, if_true, List.map_cons, List.map_nil,
            List.take_succ_cons, List.take_zero, List.drop_succ_cons, List.drop_zero, List.head?_cons,
            Option.toList_some, highest_cons, highest_nil, Nat.zero_le, Nat.max_eq_left]
          omega
  | functionCall | macroCall =>
      obtain ⟨callee, values, rfl, hcallee, -⟩ := hparts
      refine (isWord_or_nesting_le (.inl hcallee) hmem).imp_right fun hvalues => .inr ?_
      simp [levelsAround, level, NodeKind.takesLevel]
      omega
  | functionDecl | macroDecl =>
      obtain ⟨name, parameters, body, rfl, hname, -⟩ := hparts
      refine (isWord_or_nesting_le (.inl hname) hmem).imp_right fun hrest => .inr ?_
      simpa [levelsAround, level, NodeKind.takesLevel] using hrest
  | structDecl | structField =>
      obtain ⟨name, rest, hchildren, hname, -⟩ := hparts
      obtain rfl : children = _ := hchildren
      refine (isWord_or_nesting_le (.inl hname) hmem).imp_right fun hrest => .inr ?_
      simpa [levelsAround, level, NodeKind.takesLevel] using hrest
  | keyValuePair =>
      obtain ⟨key, value, rfl, hkey, -⟩ := hparts
      refine (isWord_or_nesting_le (.inr hkey) hmem).imp_right fun hvalue => .inr ?_
      simpa [levelsAround, level, NodeKind.takesLevel] using hvalue
  | parameterList => exact .inl (.inl (hparts child hmem))
  | importPath =>
      rcases hparts with ⟨address, rfl, haddress⟩ | ⟨-, hsegments⟩
      · obtain rfl := List.mem_singleton.mp hmem
        exact .inl (.inr haddress)
      · exact .inl (.inl (hsegments child hmem))
  | importStmt =>
      have hpath : ∀ path : Node, path.IsPath → child = path →
          0 + child.nesting ≤ 0 := by
        rintro path hpath rfl
        rw [hpath.nesting_eq]
      rcases hparts with ⟨path, rfl, hvalid⟩ | ⟨path, name, rfl, hvalid, hname⟩ |
        ⟨names, path, rfl, -, hnames, hvalid⟩
      · exact .inr (.inr (hpath path hvalid (List.mem_singleton.mp hmem)))
      · rcases List.mem_cons.mp hmem with rfl | hlast
        · exact .inr (.inr (hpath _ hvalid rfl))
        · obtain rfl := List.mem_singleton.mp hlast
          exact .inl (.inl hname)
      · rcases List.mem_append.mp hmem with hname | hlast
        · exact .inl (.inl (hnames child hname))
        · exact .inr (.inr (hpath path hvalid (List.mem_singleton.mp hlast)))
  | _ =>
      refine .inr (.inr ?_)
      simp only [levelsAround, level, NodeKind.takesLevel, if_true, if_false, Bool.false_eq_true]
      omega

/-- The left operand of an operator is read before the operator, and its own operators stay entered while
the right operand is read. -/
theorem Shaped.left_operand (h : n.Shaped) (hkind : n.kind.isInfix) (hleft : n.children[0]? = some left) :
    left.IsExpression ∧ left.nesting ≤ n.nesting ∧ left.opened < n.nesting ∧
      n.opened = left.opened + 1 := by
  have hparts := h.parts
  obtain ⟨next, form, hoperator, -⟩ := h.exists_operator hkind
  rw [Node.nesting_eq n]
  obtain ⟨kind, children, span, literal⟩ := n
  cases kind with
  | binaryExpr | inExpr | rangeExpr | memberAccess | subscript =>
      obtain ⟨first, second, rfl, hfirst, -⟩ := hparts
      cases hleft
      refine ⟨hfirst, ?_, ?_, by simp [opened, hoperator]⟩
      · simp only [levelsAround, List.map_cons, List.take_succ_cons, List.take_zero, highest_cons,
          highest_nil]
        omega
      · simp only [levelsAround, List.head?_cons, Option.toList_some, List.map_cons, List.map_nil,
          highest_cons, highest_nil]
        omega
  | _ => cases hkind

theorem levels_le_nesting (h : n.Every Shaped) (hstraight : n.Straight path) :
    n.levels path ≤ n.nesting := by
  induction path generalizing n with
  | nil => exact n.level_le_nesting
  | cons index path ih =>
      cases hchild : n.children[index]? with
      | none => simpa [levels, hchild] using n.level_le_nesting
      | some child =>
          obtain ⟨hroot, hbelow⟩ := every_iff.mp h
          have hevery := hbelow child (List.mem_of_getElem? hchild)
          rw [Straight, hchild] at hstraight
          obtain ⟨hleft, hstraight⟩ := hstraight
          rw [levels_cons hchild]
          rcases hroot.child_cases hchild with hword | ⟨hkind, rfl⟩ | hlevel
          · rw [hword.levels (every_iff.mp hevery).1]
            exact n.level_le_nesting
          · obtain ⟨-, -, hopened, -⟩ := hroot.left_operand hkind hchild
            have hheld := hleft hkind rfl
            have hlevel := n.level_le_one
            omega
          · have := ih hevery hstraight
            omega

theorem IsExpression.level_or_children (h : n.IsExpression) (hshaped : n.Shaped) :
    n.level = 1 ∨ n.level = 0 ∧ n.children = [] := by
  rcases h with hkind | ⟨hkind, hchildren⟩
  · have hparts := hshaped.parts
    obtain ⟨kind, children, span, literal⟩ := n
    cases kind with
    | identifier | numberLit | stringLit | boolLit => exact .inr ⟨rfl, hparts⟩
    | arrayLit | objectLit | binaryExpr | unaryBang | awaitExpr | rangeExpr | inExpr | memberAccess
    | subscript | lambda | functionCall | macroCall => exact .inl rfl
    | _ => cases hkind
  · exact .inr ⟨by simp [level, hkind, NodeKind.takesLevel], hchildren⟩

/-- The sum of the numbers up to a number. -/
def triangle : Nat → Nat
  | 0 => 0
  | m + 1 => triangle m + (m + 1)

theorem triangle_mono {m k : Nat} (h : m ≤ k) : triangle m ≤ triangle k := by
  induction h with
  | refl => exact Nat.le_refl _
  | step _ ih => exact Nat.le_trans ih (Nat.le_add_right _ _)

theorem add_triangle_le {own m k : Nat} (hown : own ≤ k) (h : m < k) :
    own + triangle m ≤ triangle k := by
  obtain ⟨below, rfl⟩ : ∃ below, k = below + 1 := ⟨k - 1, by omega⟩
  have := triangle_mono (Nat.le_of_lt_succ h)
  rw [triangle]
  omega

theorem le_triangle (m : Nat) : m ≤ triangle m := by
  cases m with
  | zero => exact Nat.le_refl _
  | succ m => exact Nat.le_add_left _ _

theorem level_le_triangle (n : Node) : n.level ≤ triangle n.nesting :=
  Nat.le_trans n.level_le_nesting (le_triangle _)

theorem level_le_opened (n : Node) : n.level ≤ n.opened + triangle (n.nesting - 1) :=
  Nat.le_trans n.level_le_one (Nat.le_trans n.one_le_opened (Nat.le_add_right _ _))

/-- The levels on any path.  What nests in the left operand of an operator has left its levels when the
operator enters one, so the two may add up; but each level leaves one less for the operators inside it. -/
theorem levels_le_triangle (h : n.Every Shaped) :
    n.levels path ≤ triangle n.nesting ∧
      (n.IsExpression → n.levels path ≤ n.opened + triangle (n.nesting - 1)) := by
  induction path generalizing n with
  | nil => exact ⟨n.level_le_triangle, fun _ => n.level_le_opened⟩
  | cons index path ih =>
      cases hchild : n.children[index]? with
      | none =>
          simp only [levels, hchild]
          exact ⟨n.level_le_triangle, fun _ => n.level_le_opened⟩
      | some child =>
          obtain ⟨hroot, hbelow⟩ := every_iff.mp h
          have hevery := hbelow child (List.mem_of_getElem? hchild)
          obtain ⟨hlevels, hchain⟩ := ih hevery
          have hlevel := n.level_le_one
          rw [levels_cons hchild]
          rcases hroot.child_cases hchild with hword | ⟨hkind, rfl⟩ | hnested
          · rw [hword.levels (every_iff.mp hevery).1]
            exact ⟨n.level_le_triangle, fun _ => n.level_le_opened⟩
          · -- the level of the operator comes on top of a left operand that may have used all levels
            obtain ⟨hexpression, hnesting, hheld, hopened⟩ := hroot.left_operand hkind hchild
            have hbefore := triangle_mono (Nat.sub_le_sub_right hnesting 1)
            have hsum : n.opened + triangle (n.nesting - 1) ≤ triangle n.nesting :=
              add_triangle_le (by omega) (by omega)
            have hleft := hchain hexpression
            omega
          · constructor
            · rcases Nat.eq_zero_or_pos n.level with hzero | hpos
              · have hbefore := triangle_mono (show child.nesting ≤ n.nesting by omega)
                omega
              · have hsum : n.level + triangle child.nesting ≤ triangle n.nesting :=
                  add_triangle_le n.level_le_nesting (by omega)
                omega
            · intro hexpression
              rcases hexpression.level_or_children hroot with hown | ⟨-, hnone⟩
              · have hopened := n.one_le_opened
                have hbefore := triangle_mono (show child.nesting ≤ n.nesting - 1 by omega)
                omega
              · simp [hnone] at hchild

end Node

end ScriptSyntax
