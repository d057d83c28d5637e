import ScriptSyntax.Parsing.Source
import ScriptSyntax.Proofs.Parsing.Reading
import ScriptSyntax.Proofs.Token.Lexemes

/-!
The parse of a whole source, from the state before its first token to the end of the file.
-/

namespace ScriptSyntax

/-- The state before the first token of a text that begins at `p`. -/
def State.ofText (options : Options) (p : Position) (text : List Char) : State :=
  State.ofTokens options p (Scan.tokens p text)

theorem State.ofText_eq (options : Options) (p : Position) (text : List Char) :
    State.ofText options p text =
      { rest := Slot.significant none (Scan.lexemes p text), endOfFile := p.advancedBy text,
        commentAtEnd := Slot.pendingAfter none (Scan.lexemes p text), start := p, consumed := 0,
        previousEnd := p, delimiters := [], depth := 0, deepest := 0, reports := [],
        journal := [], options } :=
  State.ofTokens_lexemes options p text

theorem kind_ne_of_mem_ofText {options : Options} {p : Position} {text : List Char} :
    ∀ slot ∈ (State.ofText options p text).rest, slot.kind ≠ .endOfFile := by
  intro slot hslot
  rw [State.ofText_eq] at hslot
  exact (Scan.run_lexemes p text).kind_ne _ (Slot.token_mem hslot)

def State.ofSource (source : String) (options : Options) : State :=
  State.ofTokens options Position.origin (tokenize source)

theorem rest_ofSource (source : String) (options : Options) :
    (State.ofSource source options).rest =
      Slot.significant none (Scan.lexemes Position.origin source.toList) := by
  rw [State.ofSource, tokenize, State.ofTokens_lexemes]

theorem State.depth_ofSource (source : String) (options : Options) :
    (State.ofSource source options).depth = 0 := by
  rw [State.ofSource, tokenize, State.ofTokens_lexemes]

theorem kind_ne_of_mem_rest {source : String} {options : Options} :
    ∀ slot ∈ (State.ofSource source options).rest, slot.kind ≠ .endOfFile :=
  kind_ne_of_mem_ofText

theorem Parser.rest_statementList {inBlock : Bool} {s s' : State} {nodes : List Node}
    (htokens : ∀ slot ∈ s.rest, slot.kind ≠ .endOfFile)
    (hrun : statementList statement inBlock s = .ok nodes s') :
    s'.rest = [] ∨ inBlock = true ∧ s'.kind = .rightBrace := by
  have hreads := reads_of_statements hrun
  have hend := hreads.atListEnd inBlock rfl
  simp only [atListEnd, Bool.or_eq_true, Bool.and_eq_true, decide_eq_true_eq] at hend
  rcases hend with hfile | hbrace
  · left
    cases hrest : s'.rest with
    | nil => rfl
    | cons slot slots =>
        rw [State.kind_of_cons hrest] at hfile
        exact absurd hfile (htokens slot (hreads.advances.rest.subset (by simp [hrest])))
  · exact .inr hbrace

theorem parseTokens_eq (options : Options) (p : Position) (text : List Char) :
    ∃ body s', Parser.statementList Parser.statement false (State.ofText options p text) = .ok body s' ∧
      (parseTokens options p (Scan.tokens p text)).1 =
        ⟨Node.branch .sourceFile ⟨p, p.advancedBy text⟩ body, s'.diagnostics⟩ := by
  obtain ⟨root, s', hrun⟩ := Parser.succeeds_sourceFile (State.ofText options p text)
  have hresult := State.readSource_eq hrun
  simp only [Parser.sourceFile, Parser.bind_eq_ok, Parser.get_eq_ok, Parser.pure_eq_ok] at hrun
  obtain ⟨body, _, hbody, _, _, ⟨rfl, rfl⟩, rfl, rfl⟩ := hrun
  have hadvances := Parser.Forward.advances_of_ok _ hbody
  refine ⟨body, _, hbody, ?_⟩
  unfold State.ofText at hresult hadvances
  simp only [parseTokens, hresult]
  rw [hadvances.start, hadvances.endOfFile, State.ofTokens_lexemes]

theorem parse_eq_parseTokens (source : String) (options : Options) :
    parse source options =
      (parseTokens options Position.origin (Scan.tokens Position.origin source.toList)).1 := rfl

theorem parse_reads (source : String) (options : Options) :
    ∃ body s', (parse source options).root =
        Node.branch .sourceFile
          ⟨Position.origin, Position.origin.advancedBy source.toList⟩ body ∧
      (parse source options).diagnostics = s'.diagnostics ∧
      Reads false (.statements false) body (State.ofSource source options) s' ∧ s'.rest = [] := by
  obtain ⟨body, s', hrun, hresult⟩ := parseTokens_eq options Position.origin source.toList
  have hrest := Parser.rest_statementList kind_ne_of_mem_rest hrun
  simp only [Bool.false_eq_true, false_and, or_false] at hrest
  rw [parse_eq_parseTokens, hresult]
  exact ⟨body, s', rfl, rfl, Parser.reads_of_statements hrun, hrest⟩

end ScriptSyntax
