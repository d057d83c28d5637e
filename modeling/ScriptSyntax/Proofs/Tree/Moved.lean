import ScriptSyntax.Tree.Node

/-!
Trees with their places moved.
-/

namespace ScriptSyntax

def Span.mapPositions (f : Position → Position) (span : Span) : Span := ⟨f span.start, f span.stop⟩

namespace Node

mutual
/-- The tree with every place in it moved. -/
def mapPositions (f : Position → Position) : Node → Node
  | ⟨kind, children, span, literal⟩ =>
      ⟨kind, mapPositionsList f children, span.mapPositions f, literal⟩
def mapPositionsList (f : Position → Position) : List Node → List Node
  | [] => []
  | n :: nodes => n.mapPositions f :: mapPositionsList f nodes
end

theorem mapPositionsList_eq_map (f : Position → Position) (nodes : List Node) :
    mapPositionsList f nodes = nodes.map (·.mapPositions f) := by
  induction nodes with
  | nil => rfl
  | cons n nodes ih => rw [mapPositionsList, ih, List.map_cons]

theorem mapPositions_mk (f : Position → Position) (kind : NodeKind) (children : List Node) (span : Span)
    (literal : Option String) :
    mapPositions f ⟨kind, children, span, literal⟩ =
      ⟨kind, children.map (·.mapPositions f), span.mapPositions f, literal⟩ := by
  rw [mapPositions, mapPositionsList_eq_map]

theorem mapPositions_id (n : Node) : n.mapPositions id = n := by
  induction n with
  | node kind children span literal ih =>
      rw [mapPositions_mk, List.map_congr_left ih, List.map_id']
      rfl

end Node

end ScriptSyntax
