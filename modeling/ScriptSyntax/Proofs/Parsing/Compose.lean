import ScriptSyntax.Proofs.Parsing.Errors
import ScriptSyntax.Proofs.Parsing.LineEnd
import ScriptSyntax.Proofs.Parsing.Openings
import ScriptSyntax.Proofs.Parsing.Shifted
import ScriptSyntax.Proofs.Token.Join

/-!
Sources one behind the other.  Lines without errors are read the same whatever text follows them, and the text
is read as if it stood alone: `parse_append`.
-/

namespace ScriptSyntax

open ScriptSyntax.Parser

/-! ### Texts joined at a line break -/

/-- The newline behind a line, with the comment before it. -/
def Slot.lineBreak (line : List Char) : Slot :=
  ⟨⟨.newline, "\n", ⟨Position.origin.advancedBy line, (Position.origin.advancedBy line).next '\n'⟩⟩,
    Slot.pendingAfter none (Scan.lexemes Position.origin line)⟩

/-- Where the text behind a line begins. -/
def Position.behindLine (line : List Char) : Position :=
  (origin.advancedBy line).next '\n'

theorem State.ofText_line (options : Options) (line text : List Char) :
    State.ofText options Position.origin (line ++ '\n' :: text) =
      { rest := Slot.significant none (Scan.lexemes Position.origin line) ++
          Slot.lineBreak line :: Slot.significant none (Scan.lexemes (.behindLine line) text)
        endOfFile := (Position.behindLine line).advancedBy text
        commentAtEnd := Slot.pendingAfter none (Scan.lexemes (.behindLine line) text)
        start := Position.origin, consumed := 0, previousEnd := Position.origin, delimiters := []
        depth := 0, deepest := 0, reports := [], journal := [], options } := by
  rw [State.ofText_eq, Scan.lexemes_line, Scan.lexemes_newline, Slot.significant_append,
    Slot.significant_token rfl, Slot.pendingAfter_append, Slot.pendingAfter_token rfl,
    Position.advancedBy_append]
  rfl

section
variable {line text : List Char} {options : Options}

theorem Position.behindLine_eq {lines : String} (hlines : lines.toList = line ++ ['\n']) :
    behindLine line = origin.shiftedBy lines := by
  rw [origin_shiftedBy hlines, hlines, advancedBy_append]
  rfl

theorem Position.offset_behindLine : (origin.advancedBy line).offset < (behindLine line).offset := by
  show _ < ((origin.advancedBy line).next '\n').offset
  exact Nat.lt_add_of_pos_right (by decide)

theorem Slot.lies_line : ∀ slot ∈ Slot.significant none (Scan.lexemes Position.origin line),
    slot.Lies fun p => p.offset < (Position.behindLine line).offset := by
  obtain ⟨-, hmem⟩ := (Scan.run_lexemes Position.origin line).start_mem
  exact @Slot.start_significant (fun p => p.offset < (Position.behindLine line).offset) none
    (Scan.lexemes Position.origin line) nofun fun token htoken =>
      Nat.lt_trans (hmem token htoken).2 Position.offset_behindLine

/-- The text behind a line does not begin with a clause. -/
def NoClauseBehind (line text : List Char) : Prop :=
  Parser.clauseKind?
    (Slot.kindPastNewlines (Slot.significant none (Scan.lexemes (.behindLine line) text))) = none

/-- The cut behind a line, which no clause follows if the line may hold blocks. -/
def Cut.behindLine (line text : List Char) (blocks : Bool)
    (hclause : blocks = true → NoClauseBehind line text) : Cut where
  first := [Slot.lineBreak line]
  second := Slot.lineBreak line :: Slot.significant none (Scan.lexemes (.behindLine line) text)
  skipped := 0
  earlier := []
  holds p := p.offset < (Position.behindLine line).offset
  blocks := blocks
  blind := .inr ⟨_, _, _, rfl, rfl, rfl, Position.offset_behindLine, fun hblocks => ⟨rfl, hclause hblocks⟩⟩

theorem Cut.alike_behindLine {blocks : Bool} (hclause : blocks = true → NoClauseBehind line text)
    (hbraces : blocks = false →
      ∀ slot ∈ Slot.significant none (Scan.lexemes Position.origin line), slot.kind ≠ .leftBrace) :
    (Cut.behindLine line text blocks hclause).Alike (State.ofText options Position.origin (line ++ ['\n']))
      (State.ofText options Position.origin (line ++ '\n' :: text)) := by
  rw [State.ofText_line, State.ofText_line]
  exact
    { rest := ⟨_, rfl, rfl, fun slot hslot => ⟨Slot.lies_line slot hslot, (hbraces · slot hslot)⟩⟩
      ends := nofun
      consumed := rfl
      previousEnd := nofun
      delimiters := rfl
      depth := rfl
      options := rfl
      reports := rfl
      lies := nofun }

theorem State.endsInNewline_ofText : (ofText options Position.origin (line ++ ['\n'])).EndsInNewline := by
  rw [ofText_line]
  exact ⟨_, Slot.lineBreak line, rfl, rfl⟩

end

/-! ### Behind the last line -/

namespace State

variable {p : TokenKind → Bool} {passed slots : List Slot}

theorem pastWhile_append (hpassed : ∀ slot ∈ passed, p slot.kind) (s : State) :
    pastWhile p (passed ++ slots) s = pastWhile p slots (pastWhile p passed s) := by
  induction passed generalizing s with
  | nil => rfl
  | cons slot passed ih =>
      obtain ⟨hfirst, hrest⟩ := List.forall_mem_cons.mp hpassed
      rw [List.cons_append, pastWhile, if_pos hfirst, ih hrest, pastWhile, if_pos hfirst]

theorem rest_pastWhile_append {s : State} (hpassed : ∀ slot ∈ passed, p slot.kind)
    (hs : s.rest = passed ++ slots) : (pastWhile p passed s).rest = slots := by
  induction passed generalizing s with
  | nil => exact hs
  | cons slot passed ih =>
      obtain ⟨hfirst, hrest⟩ := List.forall_mem_cons.mp hpassed
      rw [pastWhile, if_pos hfirst]
      exact ih hrest (rest_advanced hs)

end State

section
variable {line text : List Char} {options : Options} {nodes : List Node} {a b last : State}

theorem resumes_pastLines {before : List Slot}
    (hrounds : Rounds nodes (State.ofText options Position.origin (line ++ '\n' :: text)) b)
    (hrest : b.rest = (before ++ [Slot.lineBreak line]) ++
      Slot.significant none (Scan.lexemes (.behindLine line) text))
    (hbefore : ∀ slot ∈ before ++ [Slot.lineBreak line], slot.kind.isSeparator) :
    (State.pastWhile TokenKind.isSeparator (before ++ [Slot.lineBreak line]) b).Resumes options
      (.behindLine line) text := by
  have hpast := State.advances_pastWhile TokenKind.isSeparator (before ++ [Slot.lineBreak line]) b
  have hlater := State.rest_pastWhile_append hbefore hrest
  have hdepth := State.depth_pastWhile TokenKind.isSeparator (before ++ [Slot.lineBreak line]) b
  rw [hrounds.depth] at hdepth
  have hadvances := hrounds.advances.trans hpast
  rw [State.ofText_line] at hadvances hdepth
  refine ⟨hlater, hadvances.endOfFile, hadvances.commentAtEnd, ?_, hadvances.delimiters, hdepth,
    hadvances.options⟩
  obtain ⟨passed, hpassed, hend⟩ := hpast.passes
  rw [hlater, hrest] at hpassed
  rw [hend, ← List.append_cancel_right hpassed, Slot.endAfter_append]
  rfl

/-- A list of statements that leaves the last newline of its lines to read ends before that newline or in front
of other separators, so behind these the text that follows the lines is left to read. -/
theorem exists_resume_of_left (blocks : Bool)
    (hlist : statementList statement false (State.ofText options Position.origin (line ++ ['\n'])) =
      .ok nodes last)
    (hleft : ∀ s, Rounds nodes (State.ofText options Position.origin (line ++ ['\n'])) s →
      s.pastSeparators = last → s.EndsInNewline)
    (hclause : blocks = true → NoClauseBehind line text)
    (hbraces : blocks = false →
      ∀ slot ∈ Slot.significant none (Scan.lexemes Position.origin line), slot.kind ≠ .leftBrace) :
    ∃ s, s.Resumes options (.behindLine line) text ∧ s.reports = last.reports ∧
      (∀ d ∈ s.reports, d.span.start.offset < (Position.behindLine line).offset) ∧
      ∀ more final, statementList statement false s = .ok more final →
        statementList statement false (State.ofText options Position.origin (line ++ '\n' :: text)) =
          .ok (nodes ++ more) final := by
  have hend := rest_statementList kind_ne_of_mem_ofText hlist
  obtain ⟨a, hrounds, rfl⟩ := rounds_of_statementList hlist
  obtain ⟨before', slot, hleft, -⟩ := hleft a hrounds rfl
  have hbeyond : ¬(Cut.behindLine line text blocks hclause).Beyond a := by
    simp [Cut.Beyond, hleft, Cut.behindLine]
  obtain ⟨b, hrounds', hstates⟩ := hrounds.alike (Cut.alike_behindLine hclause hbraces) hbeyond
  obtain ⟨before, hrest, hrest', -⟩ := hstates.rest
  have hrest' : b.rest = (before ++ [Slot.lineBreak line]) ++
      Slot.significant none (Scan.lexemes (.behindLine line) text) := by
    rw [hrest', List.append_assoc]
    rfl
  -- the lines are read to their end, so that only separators stand there
  have hbefore : ∀ slot ∈ before ++ [Slot.lineBreak line], slot.kind.isSeparator := by
    simp only [Bool.false_eq_true, false_and, or_false] at hend
    rw [State.pastSeparators, State.rest_pastWhile, List.dropWhile_eq_nil_iff] at hend
    exact hrest ▸ hend
  have hresumes := resumes_pastLines hrounds' hrest' hbefore
  have hdelimiters : ∀ {rest : List Char} {s : State},
      Rounds nodes (State.ofText options Position.origin (line ++ '\n' :: rest)) s → s.delimiters = [] := by
    intro rest s hrounds
    rw [hrounds.advances.delimiters, State.ofText_line]
  have hreports : a.reports = b.reports := hstates.reports.trans (List.append_nil _)
  have hpast := State.reports_pastWhile (hdelimiters hrounds') TokenKind.isSeparator
    (before ++ [Slot.lineBreak line])
  refine ⟨_, hresumes, ?_, ?_, ?_⟩
  · rw [hpast, State.pastSeparators, State.reports_pastWhile (hdelimiters hrounds), hreports]
  · rw [hpast]
    exact hstates.lies
  · intro more final hmore
    apply hrounds'.statementList
    rw [← statementList_pastSeparators] at hmore ⊢
    rw [State.pastSeparators, hrest', State.pastWhile_append hbefore]
    rwa [State.pastSeparators, hresumes.rest] at hmore

theorem exists_resume
    (hlist : statementList statement false (State.ofText options Position.origin (line ++ ['\n'])) =
      .ok nodes last)
    (hquiet : (State.ofText options Position.origin (line ++ ['\n'])).Quiet last)
    (hclause : NoClauseBehind line text) :
    ∃ s, s.Resumes options (.behindLine line) text ∧ s.reports = last.reports ∧
      (∀ d ∈ s.reports, d.span.start.offset < (Position.behindLine line).offset) ∧
      ∀ more final, statementList statement false s = .ok more final →
        statementList statement false (State.ofText options Position.origin (line ++ '\n' :: text)) =
          .ok (nodes ++ more) final := by
  refine exists_resume_of_left true hlist ?_ (fun _ => hclause) nofun
  rintro s hrounds rfl
  exact hrounds.endsInNewline (hquiet.within (.refl _) s.advances_pastSeparators)
    State.endsInNewline_ofText

end

/-! ### The first token of a text -/

/-- The kind of the first token of a source that is neither trivia nor a newline. -/
def leadingKind (source : String) : TokenKind :=
  (((tokenize source).map (·.kind)).find? fun kind => !kind.isTrivia && kind ≠ .newline).getD .endOfFile

theorem Slot.kindPastNewlines_significant (tokens : List Token) :
    Slot.kindPastNewlines (Slot.significant none tokens) =
      ((tokens.map (·.kind)).find? fun kind => !kind.isTrivia && kind ≠ .newline).getD .endOfFile := by
  have htokens : ((Slot.significant none tokens).map (·.token)).find? (·.kind ≠ .newline) =
      tokens.find? fun token => !token.kind.isTrivia && token.kind ≠ .newline := by
    rw [Slot.map_token_significant, List.find?_filter]
    simp
  have hfound : (tokens.map (·.kind)).find? (fun kind => !kind.isTrivia && kind ≠ .newline) =
      ((Slot.significant none tokens).find? (·.kind ≠ .newline)).map (·.kind) := by
    rw [List.find?_map] at htokens ⊢
    exact (congrArg (Option.map Token.kind) htokens).symm.trans (Option.map_map ..)
  rw [hfound, Slot.kindPastNewlines]
  cases (Slot.significant none tokens).find? (·.kind ≠ .newline) <;> rfl

theorem clauseKind?_behindLine {s t : String} {line : List Char} (hline : s.toList = line ++ ['\n'])
    (helif : leadingKind t ≠ .keyword .elifKw) (helse : leadingKind t ≠ .keyword .elseKw) :
    NoClauseBehind line t.toList := by
  have hkind : Slot.kindPastNewlines
      (Slot.significant none (Scan.lexemes (.behindLine line) t.toList)) = leadingKind t := by
    rw [Position.behindLine_eq hline, Slot.kindPastNewlines_significant, Pairing.kinds_shifted, leadingKind,
      tokenize, Scan.tokens_eq, List.map_append, List.find?_append]
    cases ((Scan.lexemes Position.origin t.toList).map (·.kind)).find?
      (fun kind => !kind.isTrivia && kind ≠ .newline) <;> rfl
  rw [NoClauseBehind, hkind]
  unfold Parser.clauseKind?
  split
  · exact absurd ‹_› helif
  · exact absurd ‹_› helse
  · rfl

/-! ### Sources one behind the other -/

/-- What stands behind lines without errors is parsed as if it stood alone: the statements and the diagnostics of
both are those of the lines and those of the text, with their places moved behind the lines. -/
theorem parse_append (s t : String) (options : Options) (hline : s.toList.getLast? = some '\n')
    (hclean : (parse s options).hasErrors = false) (helif : leadingKind t ≠ .keyword .elifKw)
    (helse : leadingKind t ≠ .keyword .elseKw) :
    (parse (s ++ t) options).root.children =
        (parse s options).root.children ++
          (parse t options).root.children.map (·.mapPositions (·.shiftedBy s)) ∧
      (parse (s ++ t) options).diagnostics =
        (parse s options).diagnostics ++
          (parse t options).diagnostics.map (·.mapPositions (·.shiftedBy s)) := by
  obtain ⟨line, hline⟩ := List.getLast?_eq_some_iff.mp hline
  obtain ⟨nodes, last, hlines, hresult⟩ := parseTokens_eq options Position.origin s.toList
  obtain ⟨body, t₁, halone, hresult'⟩ := parseTokens_eq options Position.origin t.toList
  obtain ⟨whole, final, hwhole, hresult''⟩ := parseTokens_eq options Position.origin (s ++ t).toList
  have hquiet : (State.ofText options Position.origin s.toList).Quiet last :=
    Nat.le_of_eq (ParseResult.errorCount_eq_zero (congrArg ParseResult.diagnostics hresult) hclean)
  have hclause := clauseKind?_behindLine hline helif helse
  rw [String.toList_append, hline, List.append_assoc, List.singleton_append] at hwhole
  rw [hline] at hlines hquiet
  obtain ⟨middle, hresumes, hreports, hbefore, hgoes⟩ := exists_resume hlines hquiet hclause
  rw [Position.behindLine_eq hline] at hresumes hbefore
  obtain ⟨more, s₁, hmore⟩ := succeeds_statementList statement false middle
  obtain ⟨rfl, later, hlater, hplaces, hsorted⟩ := hresumes.statements hmore halone
  have hboth := hgoes _ _ hmore
  rw [hwhole] at hboth
  obtain ⟨rfl, rfl⟩ := EStateM.Result.ok.inj hboth
  rw [parse_eq_parseTokens, parse_eq_parseTokens, parse_eq_parseTokens, hresult, hresult', hresult'']
  constructor
  · rfl
  · show final.diagnostics = last.diagnostics ++ _
    rw [← hsorted, State.diagnostics, State.diagnostics, hlater, ← hreports, List.reverse_append]
    apply Diagnostic.inSourceOrder_append
    · intro d hd
      exact hbefore d (List.mem_reverse.mp hd)
    · intro d hd
      rw [Position.shiftedBy, Nat.add_comm]
      exact hplaces d (List.mem_reverse.mp hd)

theorem moves_open_block :
    "if a \x7b b \x7d\nf(c)\n".toList.getLast? = some '\n' ∧
      (parse "if a \x7b b \x7d\nf(c)\n" {}).hasErrors = false ∧
      leadingKind "\nfor a \x7b\n" ≠ .keyword .elifKw ∧ leadingKind "\nfor a \x7b\n" ≠ .keyword .elseKw ∧
      (parse ("if a \x7b b \x7d\nf(c)\n" ++ "\nfor a \x7b\n") {}).root.children =
        (parse "if a \x7b b \x7d\nf(c)\n" {}).root.children ++
          (parse "\nfor a \x7b\n" {}).root.children.map
            (·.mapPositions (·.shiftedBy "if a \x7b b \x7d\nf(c)\n")) ∧
      (parse ("if a \x7b b \x7d\nf(c)\n" ++ "\nfor a \x7b\n") {}).diagnostics.map (·.message) =
        ["unterminated block opened at line 4"] := by
  have hline : "if a \x7b b \x7d\nf(c)\n".toList.getLast? = some '\n' := by decide +kernel
  have hclean : (parse "if a \x7b b \x7d\nf(c)\n" {}).hasErrors = false := by decide +kernel
  have helif : leadingKind "\nfor a \x7b\n" ≠ .keyword .elifKw := by decide +kernel
  have helse : leadingKind "\nfor a \x7b\n" ≠ .keyword .elseKw := by decide +kernel
  obtain ⟨hroot, hdiagnostics⟩ := parse_append _ _ {} hline hclean helif helse
  refine ⟨hline, hclean, helif, helse, hroot, ?_⟩
  rw [hdiagnostics]
  decide +kernel

/-- Not so behind a clause: an `else` on its own is an error, and behind an `if` it is not. -/
example : (parse ("if a \x7b b \x7d\n" ++ "else \x7b c \x7d\n") {}).hasErrors = false ∧
    (parse "else \x7b c \x7d\n" {}).hasErrors := by
  decide +kernel

end ScriptSyntax
