import ScriptSyntax.Tree.Walk

/-!
Properties of all nodes of a tree.
-/

namespace ScriptSyntax.Node

/-- Every node of the tree has the property. -/
def Every (P : Node → Prop) (n : Node) : Prop :=
  ∀ m ∈ n.preorder, P m

theorem mem_preorderList {m : Node} {nodes : List Node} :
    m ∈ preorderList nodes ↔ ∃ n ∈ nodes, m ∈ n.preorder := by
  induction nodes with
  | nil => simp [preorderList]
  | cons n nodes ih => simp [preorderList, ih]

theorem mem_preorder {m n : Node} :
    m ∈ n.preorder ↔ m = n ∨ ∃ child ∈ n.children, m ∈ child.preorder := by
  cases n
  simp [preorder, mem_preorderList]

theorem every_iff {P : Node → Prop} {n : Node} :
    n.Every P ↔ P n ∧ ∀ child ∈ n.children, child.Every P := by
  constructor
  · intro hevery
    refine ⟨hevery n (mem_preorder.mpr (.inl rfl)), ?_⟩
    intro child hchild m hm
    exact hevery m (mem_preorder.mpr (.inr ⟨child, hchild, hm⟩))
  · rintro ⟨hroot, hchildren⟩ m hm
    rcases mem_preorder.mp hm with rfl | ⟨child, hchild, hm⟩
    · exact hroot
    · exact hchildren child hchild m hm

theorem Every.mono {P Q : Node → Prop} {n : Node} (h : n.Every P) (hPQ : ∀ m, P m → Q m) :
    n.Every Q :=
  fun m hm => hPQ m (h m hm)

theorem Every.children {P : Node → Prop} {n : Node} (h : n.Every P) :
    n.Every fun m => P m ∧ ∀ child ∈ m.children, P child := by
  induction n with
  | node kind children span literal ih =>
      obtain ⟨hroot, hbelow⟩ := every_iff.mp h
      refine every_iff.mpr ⟨⟨hroot, ?_⟩, ?_⟩
      · intro child hchild
        exact (every_iff.mp (hbelow child hchild)).1
      · intro child hchild
        exact ih child hchild (hbelow child hchild)

theorem Every.of_children {P : Node → Prop} {n : Node} (hroot : P n)
    (hchildren : n.Every fun m => ∀ child ∈ m.children, P child) : n.Every P := by
  induction n with
  | node kind children span literal ih =>
      obtain ⟨hfirst, hbelow⟩ := every_iff.mp hchildren
      refine every_iff.mpr ⟨hroot, ?_⟩
      intro child hchild
      exact ih child hchild (hfirst child hchild) (hbelow child hchild)

end ScriptSyntax.Node
