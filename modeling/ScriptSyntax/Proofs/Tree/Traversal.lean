import ScriptSyntax.Proofs.Tree.Walk
import ScriptSyntax.Tree.Query

/-!
The walk of a tree and the searches that go by it, against recursion over the tree.  The walk visits every node
once, in the order of the paths that lead to the nodes, and the searches come to what recursion over the tree
gives: `Node.walk_agrees`.
-/

namespace ScriptSyntax.Node

/-! ### Recursion over a tree -/

section
variable {α : Type}

mutual
/-- The value of a tree that `f` computes from its root and the values of the children. -/
def fold (f : Node → List α → α) : Node → α
  | n@⟨_, children, _, _⟩ => f n (foldList f children)
def foldList (f : Node → List α → α) : List Node → List α
  | [] => []
  | n :: nodes => fold f n :: foldList f nodes
end

theorem foldList_eq_map (f : Node → List α → α) (nodes : List Node) :
    foldList f nodes = nodes.map (fold f) := by
  induction nodes with
  | nil => rfl
  | cons n nodes ih => rw [foldList, ih, List.map_cons]

theorem eq_fold {f : Node → List α → α} {g : Node → α} (h : ∀ n, g n = f n (n.children.map g)) (n : Node) :
    g n = n.fold f := by
  induction n with
  | node kind children span literal ih => rw [h, fold, foldList_eq_map, List.map_congr_left ih]

end

theorem preorderList_eq_flatMap (nodes : List Node) : preorderList nodes = nodes.flatMap preorder := by
  induction nodes with
  | nil => rfl
  | cons n nodes ih => rw [preorderList, ih, List.flatMap_cons]

theorem walk_eq (n : Node) : n.walk = n :: n.children.flatMap walk := by
  have hwalk : walk = preorder := funext walk_eq_preorder
  cases n
  rw [hwalk, preorder, preorderList_eq_flatMap]

/-- The nodes of a kind by recursion. -/
def ofKind (kind : NodeKind) : Node → List Node :=
  fold fun n below => if n.kind = kind then n :: below.flatten else below.flatten

/-- The nodes without children by recursion. -/
def ends : Node → List Node :=
  fold fun n below => if n.children = [] then [n] else below.flatten

/-- The node or one below it is an error, by recursion. -/
def isBroken : Node → Bool :=
  fold fun n below => n.isError || below.any id

theorem findAll_eq_ofKind (n : Node) (kind : NodeKind) : n.findAll kind = n.ofKind kind := by
  refine eq_fold (g := (·.findAll kind)) (fun n => ?_) n
  simp only [findAll, ← List.flatMap_def]
  rw [walk_eq, List.filter_cons, List.filter_flatMap]
  simp only [decide_eq_true_eq]

theorem leaves_eq_ends (n : Node) : n.leaves = n.ends := by
  refine eq_fold (g := leaves) (fun n => ?_) n
  rw [leaves, walk_eq, List.filter_cons, List.filter_flatMap, ← List.flatMap_def]
  by_cases hchildren : n.children = []
  · simp [hchildren]
  · rw [if_neg hchildren, if_neg (by simpa using hchildren)]
    rfl

theorem containsErrors_eq_isBroken (n : Node) : n.containsErrors = n.isBroken := by
  refine eq_fold (g := containsErrors) (fun n => ?_) n
  rw [containsErrors, walk_eq, List.any_cons, List.any_flatMap, List.any_map]
  rfl

/-! ### Paths -/

mutual
/-- The paths to the nodes of a tree, in pre-order. -/
def paths : Node → List (List Nat)
  | ⟨_, children, _, _⟩ => [] :: pathsFrom 0 children
/-- The paths to the nodes of trees that are the children of a node from `index` on. -/
def pathsFrom (index : Nat) : List Node → List (List Nat)
  | [] => []
  | n :: nodes => n.paths.map (index :: ·) ++ pathsFrom (index + 1) nodes
end

theorem exists_of_mem_pathsFrom {index : Nat} {nodes : List Node} {path : List Nat}
    (h : path ∈ pathsFrom index nodes) : ∃ i later, path = i :: later ∧ index ≤ i := by
  induction nodes generalizing index with
  | nil => cases h
  | cons n nodes ih =>
      rw [pathsFrom, List.mem_append, List.mem_map] at h
      rcases h with ⟨later, -, rfl⟩ | hlater
      · exact ⟨index, later, rfl, Nat.le_refl _⟩
      · obtain ⟨i, later, rfl, hle⟩ := ih hlater
        exact ⟨i, later, rfl, Nat.le_of_succ_le hle⟩

theorem pairwise_pathsFrom {nodes : List Node} (h : ∀ n ∈ nodes, n.paths.Pairwise (· < ·)) (index : Nat) :
    (pathsFrom index nodes).Pairwise (· < ·) := by
  induction nodes generalizing index with
  | nil => exact .nil
  | cons n nodes ih =>
      obtain ⟨hfirst, hlater⟩ := List.forall_mem_cons.mp h
      rw [pathsFrom, List.pairwise_append, List.pairwise_map]
      refine ⟨hfirst.imp fun hlt => List.cons_lt_cons_iff.mpr (.inr ⟨rfl, hlt⟩), ih hlater _, ?_⟩
      intro path hpath path' hpath'
      obtain ⟨earlier, -, rfl⟩ := List.mem_map.mp hpath
      obtain ⟨i, later, rfl, hle⟩ := exists_of_mem_pathsFrom hpath'
      exact List.cons_lt_cons_iff.mpr (.inl hle)

theorem pairwise_paths (n : Node) : n.paths.Pairwise (· < ·) := by
  induction n with
  | node kind children span literal ih =>
      rw [paths]
      refine List.pairwise_cons.mpr ⟨fun path hpath => ?_, pairwise_pathsFrom ih 0⟩
      obtain ⟨i, later, rfl, -⟩ := exists_of_mem_pathsFrom hpath
      exact List.nil_lt_cons i later

theorem map_descend_pathsFrom {n : Node} {nodes : List Node} {index : Nat}
    (hnodes : n.children.drop index = nodes)
    (h : ∀ child ∈ nodes, child.paths.map child.descend = child.preorder.map .ok) :
    (pathsFrom index nodes).map n.descend = (preorderList nodes).map .ok := by
  induction nodes generalizing index with
  | nil => rfl
  | cons child nodes ih =>
      obtain ⟨hfirst, hlater⟩ := List.forall_mem_cons.mp h
      have hchild : n.children[index]? = some child := by
        rw [← List.head?_drop, hnodes, List.head?_cons]
      have hdrop : n.children.drop (index + 1) = nodes := by
        rw [← List.drop_drop, hnodes, List.drop_one, List.tail_cons]
      have hdescend : n.descend ∘ (index :: ·) = child.descend := by
        funext path
        simp [descend, hchild]
      rw [pathsFrom, preorderList, List.map_append, List.map_map, hdescend, hfirst, ih hdrop hlater,
        List.map_append]

theorem map_descend_paths (n : Node) : n.paths.map n.descend = n.preorder.map .ok := by
  induction n with
  | node kind children span literal ih =>
      rw [paths, preorder, List.map_cons, List.map_cons, map_descend_pathsFrom List.drop_zero ih]
      rfl

theorem cons_mem_pathsFrom_iff {index i : Nat} {path : List Nat} {nodes : List Node} :
    i :: path ∈ pathsFrom index nodes ↔
      index ≤ i ∧ ∃ n ∈ nodes[i - index]?, path ∈ n.paths := by
  induction nodes generalizing index with
  | nil => simp [pathsFrom]
  | cons n nodes ih =>
      have hfirst : i :: path ∈ n.paths.map (index :: ·) ↔ index = i ∧ path ∈ n.paths := by
        simp [and_left_comm]
      rw [pathsFrom, List.mem_append, hfirst, ih]
      rcases Nat.lt_trichotomy index i with hlt | rfl | hlt
      · have hindex : i - index = i - (index + 1) + 1 := by omega
        rw [hindex, List.getElem?_cons_succ]
        constructor
        · rintro (⟨rfl, -⟩ | ⟨-, hlater⟩)
          · exact absurd hlt (Nat.lt_irrefl _)
          · exact ⟨Nat.le_of_lt hlt, hlater⟩
        · rintro ⟨-, hlater⟩
          exact .inr ⟨hlt, hlater⟩
      · rw [Nat.sub_self, List.getElem?_cons_zero]
        constructor
        · rintro (⟨-, hpath⟩ | ⟨hle, -⟩)
          · exact ⟨Nat.le_refl _, n, rfl, hpath⟩
          · exact absurd hle (Nat.lt_irrefl _)
        · rintro ⟨-, m, hm, hpath⟩
          obtain rfl := Option.some.inj hm
          exact .inl ⟨rfl, hpath⟩
      · refine iff_of_false ?_ fun h => Nat.lt_irrefl _ (Nat.lt_of_lt_of_le hlt h.1)
        rintro (⟨rfl, -⟩ | ⟨hle, -⟩)
        · exact Nat.lt_irrefl _ hlt
        · exact Nat.lt_irrefl _ (Nat.lt_of_lt_of_le hlt (Nat.le_of_succ_le hle))

theorem mem_paths_iff {n : Node} {path : List Nat} : path ∈ n.paths ↔ ∃ m, n.descend path = .ok m := by
  induction n generalizing path with
  | node kind children span literal ih =>
      cases path with
      | nil => simp [paths, descend]
      | cons i path =>
          rw [paths, List.mem_cons, cons_mem_pathsFrom_iff, descend]
          cases hchild : children[i]? with
          | none => simp
          | some child =>
              have hbelow : path ∈ child.paths ↔ ∃ m, child.descend path = .ok m :=
                ih child (List.mem_of_getElem? hchild)
              simp [hbelow]

/-! ### The walk -/

/-- Stepping through a tree gives its nodes in pre-order and comes to an end, each node is met once, in the order
of the paths, and the searches give what recursion over the tree gives. -/
theorem walk_agrees (n : Node) :
    (Walk.mk [n]).Visits n.preorder ⟨[]⟩ ∧ (Walk.mk []).next? = none ∧ n.walk = n.preorder ∧
      (∃ paths : List (List Nat), paths.Pairwise (· < ·) ∧
        (∀ path, path ∈ paths ↔ ∃ m, n.descend path = .ok m) ∧ paths.map n.descend = n.walk.map .ok) ∧
      (∀ kind, n.findAll kind = n.ofKind kind) ∧ n.leaves = n.ends ∧ n.containsErrors = n.isBroken := by
  refine ⟨Walk.visits_preorder n [], rfl, walk_eq_preorder n, ?_, findAll_eq_ofKind n, leaves_eq_ends n,
    containsErrors_eq_isBroken n⟩
  refine ⟨n.paths, pairwise_paths n, fun _ => mem_paths_iff, ?_⟩
  rw [walk_eq_preorder, map_descend_paths]

end ScriptSyntax.Node
