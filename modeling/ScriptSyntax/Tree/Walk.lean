import ScriptSyntax.Tree.Node

/-!
The nodes of a tree in pre-order, in two forms.  `Node.preorder` follows the tree; `Node.walk` steps from
node to node with a `Walk`, which keeps the nodes still to visit on a stack and needs no recursion into
the tree.  Searches go by `walk`.
-/

namespace ScriptSyntax

namespace Node

mutual
/-- The nodes of a tree, each before the nodes below it. -/
def preorder : Node → List Node
  | n@⟨_, children, _, _⟩ => n :: preorderList children
def preorderList : List Node → List Node
  | [] => []
  | n :: nodes => n.preorder ++ preorderList nodes
end

theorem size_children (n : Node) : sizeList n.children + 1 = n.size := by
  cases n
  rw [size]

theorem sizeList_append (first second : List Node) :
    sizeList (first ++ second) = sizeList first + sizeList second := by
  induction first with
  | nil => simp [sizeList]
  | cons n first ih => simp [sizeList, ih, Nat.add_assoc]

end Node

/-- A walk under way. -/
structure Walk where
  /-- The nodes to visit, the next one first, each with all that is below it. -/
  stack : List Node

namespace Walk

/-- Puts nodes on a stack one after the other, so that the last of them comes first. -/
def pushed (stack nodes : List Node) : List Node :=
  nodes.foldl (fun stack n => n :: stack) stack

@[simp] theorem pushed_reverse (stack nodes : List Node) : pushed stack nodes.reverse = nodes ++ stack := by
  simp [pushed]

/-- The next node, and the walk with the children of the node in its place. -/
def next? (w : Walk) : Option (Node × Walk) :=
  match w.stack with
  | [] => none
  | n :: stack => some (n, ⟨pushed stack n.children.reverse⟩)

theorem next?_cons (n : Node) (stack : List Node) :
    next? ⟨n :: stack⟩ = some (n, ⟨n.children ++ stack⟩) := by
  simp [next?]

theorem size_next? {w w' : Walk} {n : Node} (hnext : w.next? = some (n, w')) :
    Node.sizeList w'.stack + 1 = Node.sizeList w.stack := by
  obtain ⟨_ | ⟨m, stack⟩⟩ := w
  · cases hnext
  · rw [next?_cons] at hnext
    cases hnext
    have hsize := n.size_children
    simp only [Node.sizeList, Node.sizeList_append]
    omega

/-- The nodes of a walk to its end, after those visited, which are kept in reverse. -/
def nodesAfter (visited : List Node) (w : Walk) : List Node :=
  match _ : w.next? with
  | none => visited.reverse
  | some (n, w') => nodesAfter (n :: visited) w'
termination_by Node.sizeList w.stack
decreasing_by
  have hsize := size_next? ‹w.next? = some (n, w')›
  omega

end Walk

namespace Node

/-- The nodes of a tree in pre-order, the root first. -/
def walk (n : Node) : List Node :=
  Walk.nodesAfter [] ⟨[n]⟩

def findAll (n : Node) (kind : NodeKind) : List Node :=
  n.walk.filter (·.kind = kind)

/-- The nodes without children, in pre-order. -/
def leaves (n : Node) : List Node :=
  n.walk.filter (·.children.isEmpty)

/-- Some node of the tree stands for broken source text. -/
def containsErrors (n : Node) : Bool :=
  n.walk.any (·.isError)

mutual
/-- The nodes of a tree in pre-order, each with its distance from a root at the given depth. -/
def outlineFrom (depth : Nat) : Node → List (Nat × Node)
  | n@⟨_, children, _, _⟩ => (depth, n) :: outlineList (depth + 1) children
def outlineList (depth : Nat) : List Node → List (Nat × Node)
  | [] => []
  | n :: nodes => outlineFrom depth n ++ outlineList depth nodes
end

/-- The nodes of a tree in pre-order, each with its distance from the root. -/
def outline (n : Node) : List (Nat × Node) :=
  outlineFrom 0 n

end Node

end ScriptSyntax
