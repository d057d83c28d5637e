import ScriptSyntax.Parsing.State
import ScriptSyntax.Proofs.Tree.Every

/-!
The pairs of brackets that a tree was read from.
-/

namespace ScriptSyntax

namespace NodeKind

/-- The nodes that hold a list of expressions between brackets: the arguments of a call, the elements of an
array, the entries of an object or an index. -/
def isExpressionList : NodeKind → Bool
  | functionCall | macroCall | arrayLit | objectLit | subscript => true
  | _ => false

/-- The brackets that a node of the kind ends with. -/
def delimiter? : NodeKind → Option Delimiter
  | functionCall | macroCall => some ⟨.rightParen, true⟩
  | arrayLit | subscript => some ⟨.rightBracket, true⟩
  | objectLit => some ⟨.rightBrace, true⟩
  | parameterList => some ⟨.rightParen, false⟩
  | block | structDecl => some ⟨.rightBrace, false⟩
  | _ => none

end NodeKind

namespace Node

/-- The brackets around the parts of a node.  An import takes its names from between braces. -/
def ownDelimiter? (kind : NodeKind) (children : List Node) : Option Delimiter :=
  if kind = .importStmt then
    if children.head?.any (·.kind = .identifier) then some ⟨.rightBrace, false⟩ else none
  else kind.delimiter?

theorem isExpressionList_iff (kind : NodeKind) (children : List Node) :
    kind.isExpressionList ↔
      ∃ delimiter, ownDelimiter? kind children = some delimiter ∧ delimiter.expressionList := by
  unfold ownDelimiter?
  by_cases himport : kind = .importStmt
  · subst himport
    simp [NodeKind.isExpressionList]
  · rw [if_neg himport]
    cases kind <;> simp [NodeKind.isExpressionList, NodeKind.delimiter?]

/-- The pair of brackets that a delimiter stands for; a list of expressions ends where its node does. -/
def bracket (delimiter : Delimiter) (stop : Position) : Delimiter × Option Position :=
  (delimiter, if delimiter.expressionList then some stop else none)

mutual
/-- The pairs of brackets that a tree was read from, in the order in which they are closed. -/
def brackets : Node → List (Delimiter × Option Position)
  | ⟨kind, children, span, _⟩ =>
      bracketsList children ++ ((ownDelimiter? kind children).map (bracket · span.stop)).toList
def bracketsList : List Node → List (Delimiter × Option Position)
  | [] => []
  | n :: nodes => n.brackets ++ bracketsList nodes
end

@[simp] theorem bracketsList_nil : bracketsList [] = [] := rfl

@[simp] theorem bracketsList_cons (n : Node) (nodes : List Node) :
    bracketsList (n :: nodes) = n.brackets ++ bracketsList nodes := rfl

theorem bracketsList_eq_flatMap (nodes : List Node) : bracketsList nodes = nodes.flatMap brackets := by
  induction nodes with
  | nil => rfl
  | cons n nodes ih => rw [bracketsList, ih, List.flatMap_cons]

@[simp] theorem bracketsList_append (first second : List Node) :
    bracketsList (first ++ second) = bracketsList first ++ bracketsList second := by
  simp [bracketsList_eq_flatMap]

@[simp] theorem brackets_mk (kind : NodeKind) (children : List Node) (span : Span) (literal : Option String) :
    brackets ⟨kind, children, span, literal⟩ =
      bracketsList children ++ ((ownDelimiter? kind children).map (bracket · span.stop)).toList := by
  rw [brackets]

theorem mem_brackets {n : Node} {p : Position} :
    (∃ delimiter, delimiter.expressionList ∧ (delimiter, some p) ∈ n.brackets) ↔
      ∃ m ∈ n.preorder, m.kind.isExpressionList ∧ m.span.stop = p := by
  induction n with
  | node kind children span literal ih =>
      have hown : ∀ delimiter : Delimiter, delimiter.expressionList →
          ((delimiter, some p) ∈ ((ownDelimiter? kind children).map (bracket · span.stop)).toList ↔
            ownDelimiter? kind children = some delimiter ∧ span.stop = p) := by
        intro delimiter hlist
        cases ownDelimiter? kind children with
        | none => simp
        | some own =>
            simp only [Option.map_some, Option.mem_toList, bracket, Prod.mk.injEq,
              Option.some.injEq]
            constructor
            · rintro ⟨rfl, hstop⟩
              rw [if_pos hlist] at hstop
              exact ⟨rfl, Option.some.inj hstop⟩
            · rintro ⟨rfl, rfl⟩
              exact ⟨rfl, if_pos hlist⟩
      rw [brackets_mk, bracketsList_eq_flatMap]
      constructor
      · rintro ⟨delimiter, hlist, hmem⟩
        rcases List.mem_append.mp hmem with hbelow | hroot
        · obtain ⟨child, hchild, hmem⟩ := List.mem_flatMap.mp hbelow
          obtain ⟨m, hm, hends⟩ := (ih child hchild).mp ⟨delimiter, hlist, hmem⟩
          exact ⟨m, mem_preorder.mpr (.inr ⟨child, hchild, hm⟩), hends⟩
        · obtain ⟨hdelimiter, hstop⟩ := (hown delimiter hlist).mp hroot
          exact ⟨_, mem_preorder.mpr (.inl rfl),
            (isExpressionList_iff kind children).mpr ⟨delimiter, hdelimiter, hlist⟩, hstop⟩
      · rintro ⟨m, hm, hkind, hstop⟩
        rcases mem_preorder.mp hm with rfl | ⟨child, hchild, hm⟩
        · obtain ⟨delimiter, hdelimiter, hlist⟩ := (isExpressionList_iff kind children).mp hkind
          exact ⟨delimiter, hlist,
            List.mem_append_right _ ((hown delimiter hlist).mpr ⟨hdelimiter, hstop⟩)⟩
        · obtain ⟨delimiter, hlist, hmem⟩ := (ih child hchild).mpr ⟨m, hm, hkind, hstop⟩
          exact ⟨delimiter, hlist,
            List.mem_append_left _ (List.mem_flatMap.mpr ⟨child, hchild, hmem⟩)⟩

end Node

end ScriptSyntax
