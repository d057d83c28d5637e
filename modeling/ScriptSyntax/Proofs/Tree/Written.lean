import ScriptSyntax.Tree.Node

/-!
Trees written back as the words of a script, each node by the form of the grammar that it stands for.
-/

namespace ScriptSyntax

theorem intercalate_cons (separator : String) (first : List String) (rest : List (List String)) :
    [separator].intercalate (first :: rest) = first ++ (rest.map (separator :: ·)).flatten := by
  induction rest generalizing first with
  | nil => simp [List.intercalate]
  | cons second rest ih =>
      have hrest := ih second
      simp only [List.intercalate] at hrest ⊢
      rw [List.intersperse_cons_cons, List.flatten_cons, List.flatten_cons, hrest]
      simp

namespace Node

/-- The words of a node around those of its parts.  `lineEnd` are the words that end a line: they stand
after each statement and each member of a structure. -/
def arrange (lineEnd : List String) (n : Node) (parts : List (List String)) : List String :=
  let commas := [","].intercalate parts
  let lines := (parts.map (· ++ lineEnd)).flatten
  let text := n.literal.getD ""
  match n.kind with
  | .sourceFile => lines
  | .variableAssign => ["="].intercalate parts
  | .compoundAssign | .binaryExpr => [text].intercalate parts
  | .constantDecl => [":="].intercalate parts
  | .functionDecl => (if n.literal.isSome then ["async"] else []) ++ "fn" :: parts.flatten
  | .macroDecl => "macro" :: parts.flatten
  | .structDecl =>
      "struct" :: parts.head?.getD [] ++ "\x7b" :: (parts.tail.map (· ++ lineEnd)).flatten ++ ["\x7d"]
  | .structField => ["="].intercalate parts
  | .expressionStmt => parts.flatten
  | .returnStmt => "return" :: parts.flatten
  | .importStmt =>
      if n.children.head?.any (·.kind = .importPath) then "use" :: ["as"].intercalate parts
      else "use" :: "\x7b" :: [","].intercalate parts.dropLast ++
        "\x7d" :: "from" :: parts.getLast?.getD []
  | .importPath => text :: ":" :: ["."].intercalate parts
  | .forStmt => "for" :: parts.flatten
  | .ifStmt => "if" :: parts.flatten
  | .elifClause => "elif" :: parts.flatten
  | .elseClause => "else" :: parts.flatten
  | .block => "\x7b" :: lines ++ ["\x7d"]
  | .identifier | .numberLit | .stringLit | .boolLit => [text]
  | .arrayLit => "[" :: commas ++ ["]"]
  | .objectLit => "\x7b" :: commas ++ ["\x7d"]
  | .keyValuePair => [":"].intercalate parts
  | .unaryBang => text :: parts.flatten
  | .awaitExpr => "await" :: parts.flatten
  | .rangeExpr => [".."].intercalate parts
  | .inExpr => ["in"].intercalate parts
  | .memberAccess => ["."].intercalate parts
  | .subscript => ["["].intercalate parts ++ ["]"]
  | .lambda => "fn" :: parts.flatten
  | .functionCall => parts.head?.getD [] ++ "(" :: [","].intercalate parts.tail ++ [")"]
  | .macroCall => text :: parts.head?.getD [] ++ "(" :: [","].intercalate parts.tail ++ [")"]
  | .parameterList => "(" :: commas ++ [")"]
  | .errorNode => []

mutual
/-- The words of a tree. -/
def written (lineEnd : List String) : Node → List String
  | ⟨kind, children, span, literal⟩ =>
      arrange lineEnd ⟨kind, children, span, literal⟩ (writtenList lineEnd children)
def writtenList (lineEnd : List String) : List Node → List (List String)
  | [] => []
  | n :: nodes => written lineEnd n :: writtenList lineEnd nodes
end

theorem writtenList_eq_map (lineEnd : List String) (nodes : List Node) :
    writtenList lineEnd nodes = nodes.map (written lineEnd) := by
  induction nodes with
  | nil => rfl
  | cons n nodes ih => rw [writtenList, ih, List.map_cons]

theorem written_eq (lineEnd : List String) (n : Node) :
    n.written lineEnd = arrange lineEnd n (n.children.map (written lineEnd)) := by
  cases n
  rw [written, writtenList_eq_map]

end Node

end ScriptSyntax
