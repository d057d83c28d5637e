import ScriptSyntax.Position
import ScriptSyntax.Tree.Kind

/-!
Trees of a script.  A node has a kind, the nodes of its parts in source order, the stretch of source it
was read from and, where the kind leaves it open, the piece of source text that tells it apart from
other nodes of its kind.
-/

namespace ScriptSyntax

/-- A node of a script's tree, with the tree below it. -/
structure Node where
  kind : NodeKind
  /-- The parts of the node in source order. -/
  children : List Node
  span : Span
  /-- The name of an identifier, the text of a literal, the operator of a binary, compound or negated
  form, the sigil of a macro call, the scheme of an import path, or the word for an asynchronous
  function. -/
  literal : Option String
deriving Repr

namespace Node

@[induction_eliminator, elab_as_elim]
theorem induct {motive : Node → Prop}
    (node : ∀ kind children span literal, (∀ child ∈ children, motive child) →
      motive ⟨kind, children, span, literal⟩) (n : Node) : motive n :=
  Node.rec (motive_1 := motive) (motive_2 := fun nodes => ∀ child ∈ nodes, motive child)
    (fun kind children span literal hchildren => node kind children span literal hchildren)
    (by simp)
    (fun head tail hhead htail => by simpa using ⟨hhead, htail⟩) n

mutual
def decideEq : (a b : Node) → Decidable (a = b)
  | ⟨kind, children, span, literal⟩, ⟨kind', children', span', literal'⟩ =>
      if hroot : kind = kind' ∧ span = span' ∧ literal = literal' then
        match decideEqList children children' with
        | .isTrue hchildren => .isTrue (by simp [hroot, hchildren])
        | .isFalse hchildren => .isFalse (by simp [hchildren])
      else .isFalse (by
        simp only [mk.injEq]
        exact fun h => hroot ⟨h.1, h.2.2.1, h.2.2.2⟩)
def decideEqList : (as bs : List Node) → Decidable (as = bs)
  | [], [] => .isTrue rfl
  | [], _ :: _ => .isFalse (by simp)
  | _ :: _, [] => .isFalse (by simp)
  | a :: as, b :: bs =>
      match decideEq a b with
      | .isFalse hhead => .isFalse (by simp [hhead])
      | .isTrue hhead =>
          match decideEqList as bs with
          | .isTrue htail => .isTrue (by simp [hhead, htail])
          | .isFalse htail => .isFalse (by simp [htail])
end

instance : DecidableEq Node := decideEq

mutual
/-- The number of nodes of a tree. -/
def size : Node → Nat
  | ⟨_, children, _, _⟩ => sizeList children + 1
def sizeList : List Node → Nat
  | [] => 0
  | n :: nodes => n.size + sizeList nodes
end

/-- A node without a literal. -/
def branch (kind : NodeKind) (span : Span) (children : List Node) : Node :=
  ⟨kind, children, span, none⟩

def leaf (kind : NodeKind) (span : Span) (literal : String) : Node :=
  ⟨kind, [], span, some literal⟩

/-- A node that stands for source text no form of the grammar covers. -/
def error (span : Span) (children : List Node) : Node :=
  ⟨.errorNode, children, span, none⟩

/-- Wraps a node that is well formed but out of place. -/
def errorWrapping (n : Node) : Node :=
  error n.span [n]

/-- The node stands for broken source text. -/
def isError (n : Node) : Bool := n.kind = .errorNode

end Node

end ScriptSyntax
