import ScriptSyntax.Tree.Walk

/-!
The walk with a stack visits the nodes of a tree in the order of the recursive list, `Node.walk_eq_preorder`, and
the error nodes of a tree counted by the recursion.
-/

namespace ScriptSyntax

namespace Walk

/-- The walk visits the nodes one by one and is `last` after them. -/
inductive Visits : Walk → List Node → Walk → Prop where
  | nil (w : Walk) : Visits w [] w
  | cons {w w' last : Walk} {n : Node} {nodes : List Node} (hnext : w.next? = some (n, w'))
      (hrest : Visits w' nodes last) : Visits w (n :: nodes) last

theorem Visits.append {w middle last : Walk} {first second : List Node} (h : Visits w first middle)
    (hsecond : Visits middle second last) : Visits w (first ++ second) last := by
  induction h with
  | nil w => exact hsecond
  | cons hnext hrest ih => exact .cons hnext (ih hsecond)

theorem visits_preorderList {nodes : List Node}
    (h : ∀ n ∈ nodes, ∀ stack, Visits ⟨n :: stack⟩ n.preorder ⟨stack⟩) (stack : List Node) :
    Visits ⟨nodes ++ stack⟩ (Node.preorderList nodes) ⟨stack⟩ := by
  induction nodes with
  | nil => exact .nil _
  | cons n nodes ih =>
      obtain ⟨hfirst, hlater⟩ := List.forall_mem_cons.mp h
      exact (hfirst (nodes ++ stack)).append (ih hlater)

theorem visits_preorder (n : Node) (stack : List Node) : Visits ⟨n :: stack⟩ n.preorder ⟨stack⟩ := by
  induction n generalizing stack with
  | node kind children span literal ih =>
      rw [Node.preorder]
      exact .cons (next?_cons _ stack) (visits_preorderList ih stack)

theorem Visits.nodesAfter_eq {w last : Walk} {nodes : List Node} (h : Visits w nodes last)
    (visited : List Node) : w.nodesAfter visited = last.nodesAfter (nodes.reverse ++ visited) := by
  induction h generalizing visited with
  | nil w => rfl
  | cons hnext hrest ih =>
      rw [nodesAfter]
      split
      · rename_i hnone
        rw [hnext] at hnone
        cases hnone
      · rename_i hsome
        rw [hnext] at hsome
        cases hsome
        rw [ih, List.reverse_cons, List.append_assoc]
        rfl

end Walk

namespace Node

theorem preorderList_append (first second : List Node) :
    preorderList (first ++ second) = preorderList first ++ preorderList second := by
  induction first with
  | nil => rfl
  | cons n first ih => simp [preorderList, ih]

theorem walk_eq_preorder (n : Node) : n.walk = n.preorder := by
  have hend : ∀ visited, Walk.nodesAfter visited ⟨[]⟩ = visited.reverse := by
    intro visited
    rw [Walk.nodesAfter]
    rfl
  rw [walk, (Walk.visits_preorder n []).nodesAfter_eq, hend, List.append_nil, List.reverse_reverse]

/-- The number of error nodes of a tree. -/
def errorNodes (n : Node) : Nat :=
  n.preorder.countP (·.isError)

def errorNodesOf (nodes : List Node) : Nat :=
  (preorderList nodes).countP (·.isError)

@[simp] theorem errorNodesOf_nil : errorNodesOf [] = 0 := rfl

@[simp] theorem errorNodesOf_cons (n : Node) (nodes : List Node) :
    errorNodesOf (n :: nodes) = n.errorNodes + errorNodesOf nodes :=
  List.countP_append

@[simp] theorem errorNodesOf_append (first second : List Node) :
    errorNodesOf (first ++ second) = errorNodesOf first + errorNodesOf second := by
  simp [errorNodesOf, preorderList_append]

theorem errorNodes_eq (n : Node) :
    n.errorNodes = errorNodesOf n.children + if n.isError then 1 else 0 := by
  cases n
  rw [errorNodes, preorder, List.countP_cons]
  rfl

theorem errorNodes_mk {kind : NodeKind} (hkind : kind ≠ .errorNode) (children : List Node) (span : Span)
    (literal : Option String) :
    errorNodes ⟨kind, children, span, literal⟩ = errorNodesOf children := by
  simp [errorNodes_eq, isError, hkind]

@[simp] theorem errorNodes_error (span : Span) (children : List Node) :
    (error span children).errorNodes = errorNodesOf children + 1 := by
  simp [errorNodes_eq, isError, error]

@[simp] theorem errorNodes_errorWrapping (n : Node) :
    n.errorWrapping.errorNodes = n.errorNodes + 1 := by
  simp [errorWrapping]

theorem length_findAll_errorNode (n : Node) : (n.findAll .errorNode).length = n.errorNodes := by
  simp [findAll, walk_eq_preorder, errorNodes, isError, List.countP_eq_length_filter]

theorem containsErrors_iff (n : Node) : n.containsErrors ↔ 0 < n.errorNodes := by
  simp [containsErrors, walk_eq_preorder, errorNodes, List.countP_pos_iff]

end Node

end ScriptSyntax
