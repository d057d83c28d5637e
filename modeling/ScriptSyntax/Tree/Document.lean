import ScriptSyntax.Diagnostic.Basic
import ScriptSyntax.Document
import ScriptSyntax.Tree.Node

/-!
Trees and diagnostics as documents.
-/

namespace ScriptSyntax

def Position.document (p : Position) : Document :=
  .record [("offset", .number p.offset), ("line", .number p.line), ("column", .number p.column)]

def Span.document (s : Span) : Document :=
  .record [("start", s.start.document), ("end", s.stop.document)]

mutual
/-- A tree as a record; a node without a literal has no field for it. -/
def Node.document : Node → Document
  | ⟨kind, children, span, literal⟩ =>
      .record ([("kind", .text kind.title), ("children", .list (Node.documentList children)),
        ("span", span.document)] ++ (literal.map fun text => ("literal", .text text)).toList)
def Node.documentList : List Node → List Document
  | [] => []
  | n :: nodes => n.document :: Node.documentList nodes
end

def Diagnostic.document (d : Diagnostic) : Document :=
  .record [("message", .text d.message), ("span", d.span.document),
    ("severity", .text d.severity.name), ("category", .text d.category.name), ("name", .text d.name),
    ("notes", .list (d.notes.map .text))]

end ScriptSyntax
