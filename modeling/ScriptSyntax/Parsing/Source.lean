import ScriptSyntax.Parsing.Success
import ScriptSyntax.Text.Slice
import ScriptSyntax.Token.Scan
import ScriptSyntax.Tree.Document

/-!
The parse of a whole source text.  It always gives a tree; what is wrong with the text is in the tree
as error nodes and in the diagnostics.
-/

namespace ScriptSyntax

/-- The tree of a source text and what there is to say about the text. -/
structure ParseResult where
  root : Node
  /-- The diagnostics in source order. -/
  diagnostics : List Diagnostic
deriving DecidableEq, Repr

namespace ParseResult

def errors (r : ParseResult) : List Diagnostic :=
  r.diagnostics.filter (·.isError)

def hasErrors (r : ParseResult) : Bool :=
  r.diagnostics.any (·.isError)

def document (r : ParseResult) : Document :=
  .record [("root", r.root.document), ("diagnostics", .list (r.diagnostics.map (·.document)))]

end ParseResult

/-- The tree of all statements from a state on, and the state at the end.  The reader of a source
never fails. -/
def State.readSource (s : State) : Node × State :=
  match hread : Parser.sourceFile s with
  | .ok root s' => (root, s')
  | .error _ _ => False.elim (by
      obtain ⟨_, _, hvalue⟩ := Parser.succeeds_sourceFile s
      rw [hvalue] at hread
      cases hread)

theorem State.readSource_eq {s s' : State} {root : Node} (hread : Parser.sourceFile s = .ok root s') :
    s.readSource = (root, s') := by
  unfold State.readSource
  split
  · simp_all
  · simp_all

/-- The result and the last state of a parse of tokens that begin at `start`. -/
def parseTokens (options : Options) (start : Position) (tokens : List Token) : ParseResult × State :=
  let (root, s) := (State.ofTokens options start tokens).readSource
  (⟨root, s.diagnostics⟩, s)

/-- The result of the parse of a source text and the events on the way. -/
def parseLogged (source : String) (options : Options) : ParseResult × List Event :=
  let (result, s) := parseTokens options Position.origin (tokenize source)
  (result, [.started source.utf8ByteSize] ++ s.events ++
    [.finished result.root.children.length result.diagnostics.length])

/-- The tree and the diagnostics of a source text. -/
def parse (source : String) (options : Options) : ParseResult :=
  (parseLogged source options).1

end ScriptSyntax
