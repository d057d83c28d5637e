import ScriptSyntax.Text.Quoted
import ScriptSyntax.Tree.Node

/-!
Trees as s-expressions.  The open form puts a tree on one line and its literals there as they are; the
indented form puts each node on a line of its own with the lines and columns it spans, and quotes its
literals.  Both append to a text, so that a large tree is written in one pass.
-/

namespace ScriptSyntax.Node

mutual
/-- Appends the open form of a tree. -/
def writeSexp (out : String) : Node → String
  | ⟨kind, children, _, literal⟩ =>
      let out := out ++ "(" ++ kind.name
      let out := match literal with
        | some text => out ++ " " ++ text
        | none => out
      writeSexpList out children ++ ")"
def writeSexpList (out : String) : List Node → String
  | [] => out
  | n :: nodes => writeSexpList (writeSexp (out ++ " ") n) nodes
end

/-- A tree on one line. -/
def sexp (n : Node) : String :=
  writeSexp "" n

/-- The two spaces that each level of depth puts before a line. -/
def indentation (depth : Nat) : String :=
  "".pushn ' ' (2 * depth)

mutual
/-- Appends the indented form of a tree whose root is `depth` levels deep, without a newline after
it. -/
def writeIndented (depth : Nat) (out : String) : Node → String
  | ⟨kind, children, span, literal⟩ =>
      let out := out ++ indentation depth ++ "(" ++ kind.name ++ " [" ++ span.start.display ++
        " - " ++ span.stop.display ++ "]"
      let out := match literal with
        | some text => out ++ " " ++ Text.quoted text
        | none => out
      writeIndentedList (depth + 1) out children ++ ")"
/-- Appends the indented forms of a list of trees, a newline before each. -/
def writeIndentedList (depth : Nat) (out : String) : List Node → String
  | [] => out
  | n :: nodes => writeIndentedList depth (writeIndented depth (out ++ "\n") n) nodes
end

/-- A tree with one node on each line. -/
def indentedSexp (n : Node) : String :=
  writeIndented 0 "" n ++ "\n"

end ScriptSyntax.Node
