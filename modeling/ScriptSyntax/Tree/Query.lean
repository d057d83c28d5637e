import ScriptSyntax.Text.Slice
import ScriptSyntax.Tree.Node

/-!
Questions about a node: its source text, the name it binds, and the parts of an import.
-/

namespace ScriptSyntax.Node

/-- The source text that the node spans. -/
def text? (n : Node) (source : String) : Except Fault String :=
  (Text.slice? source.toList n.span.start.offset n.span.stop.offset).map String.ofList

def childrenOfKind (n : Node) (kind : NodeKind) : List Node :=
  n.children.filter (·.kind = kind)

/-- The node that a path of child indices leads to, or the first index that leads nowhere. -/
def descend (n : Node) : List Nat → Except Nat Node
  | [] => .ok n
  | index :: path =>
      match n.children[index]? with
      | some child => child.descend path
      | none => .error index

/-- A form that is named by its first child. -/
def bindsName : NodeKind → Bool
  | .functionDecl | .macroDecl | .structDecl | .structField | .constantDecl | .variableAssign
  | .compoundAssign | .functionCall | .macroCall => true
  | _ => false

/-- The name of a declaration, an assignment or a call. -/
def name? (n : Node) : Option String :=
  if bindsName n.kind then
    n.children.head?.bind fun child => if child.kind = .identifier then child.literal else none
  else none

/-- A function declared asynchronous. -/
def isAsync (n : Node) : Bool :=
  n.kind = .functionDecl && n.literal = some "async"

/-- An import path, or one wrapped because of its scheme. -/
def isImportPath (n : Node) : Bool :=
  n.kind = .importPath ||
    (n.isError && (n.children.head?.any fun child => child.kind = .importPath))

/-- The path of an import, whether its scheme is known or not. -/
def importPath? (n : Node) : Option Node :=
  if n.kind = .importStmt then n.children.find? isImportPath else none

/-- The name that an import gives to what it imports. -/
def importAlias? (n : Node) : Option String :=
  if n.kind = .importStmt then
    match n.children.dropWhile (!isImportPath ·) with
    | _ :: next :: _ => next.literal
    | _ => none
  else none

/-- The names that an import takes out of what it imports. -/
def importNames (n : Node) : List String :=
  if n.kind = .importStmt then
    (n.children.takeWhile (·.kind = .identifier)).filterMap (·.literal)
  else []

end ScriptSyntax.Node
