import ScriptSyntax.Proofs.Parsing.Compose
import ScriptSyntax.Proofs.Parsing.OneLine

/-!
A broken line damages nothing behind it.  Whatever its tokens are, a line without brackets that no operator
ends is read up to its newline, and the text that follows is read as if it stood alone: `parse_broken_line`.
-/

namespace ScriptSyntax

open ScriptSyntax.Parser

/-- The kind of the last token of a source that is neither trivia nor the end of the file. -/
def trailingKind (source : String) : TokenKind :=
  let kinds := ((tokenize source).map (·.kind)).filter fun kind => !kind.isTrivia && kind ≠ .endOfFile
  kinds.getLastD .endOfFile

theorem Slot.kinds_significant (source : String) :
    (Slot.significant none (Scan.lexemes Position.origin source.toList)).map (·.kind) =
      ((tokenize source).map (·.kind)).filter fun kind => !kind.isTrivia && kind ≠ .endOfFile := by
  have htokens := Slot.map_token_significant none (Scan.lexemes Position.origin source.toList)
  have hmore : ∀ token ∈ Scan.lexemes Position.origin source.toList,
      (!token.kind.isTrivia) = (!token.kind.isTrivia && token.kind ≠ .endOfFile) := by
    intro token htoken
    simp [(Scan.run_lexemes Position.origin source.toList).kind_ne token htoken]
  calc (Slot.significant none (Scan.lexemes Position.origin source.toList)).map (·.kind)
      = ((Slot.significant none (Scan.lexemes Position.origin source.toList)).map (·.token)).map (·.kind) :=
        (List.map_map ..).symm
    _ = ((Scan.lexemes Position.origin source.toList).filter (!·.kind.isTrivia)).map (·.kind) := by
        rw [htokens]
    _ = ((Scan.lexemes Position.origin source.toList).map (·.kind)).filter
          fun kind => !kind.isTrivia && kind ≠ .endOfFile := by
        rw [List.filter_map, List.filter_congr hmore]
        rfl
    _ = _ := by
        rw [tokenize, Scan.tokens_eq, List.map_append, List.filter_append]
        exact (List.append_nil _).symm

theorem Slot.line_significant {w : String} (hline : '\n' ∉ w.toList)
    (hbrackets : ∀ token ∈ tokenize w, token.kind.closer? = none ∧ token.kind.isCloser = false)
    (hlast : (trailingKind w).operatorForm? = none) :
    Slot.Line (Slot.significant none (Scan.lexemes Position.origin w.toList) ++
      [Slot.lineBreak w.toList]) := by
  refine Slot.Line.append (fun slot hslot => ?_) (fun slot hslot => ?_) rfl
  · have htoken := Slot.token_mem hslot
    obtain ⟨hopener, hcloser⟩ := hbrackets slot.token (by
      rw [tokenize, Scan.tokens_eq]
      exact List.mem_append_left _ htoken)
    exact ⟨hopener, hcloser, Scan.kind_ne_newline _ hline slot.token htoken⟩
  · rw [trailingKind, ← Slot.kinds_significant, List.getLastD_eq_getLast?, List.getLast?_map, hslot] at hlast
    exact hlast

section
variable {line text : List Char} {options : Options} {nodes : List Node} {last : State}

theorem exists_resume_of_line
    (hplain : Slot.Line (Slot.significant none (Scan.lexemes Position.origin line) ++ [Slot.lineBreak line]))
    (hlist : statementList statement false (State.ofText options Position.origin (line ++ ['\n'])) =
      .ok nodes last) :
    ∃ s, s.Resumes options (.behindLine line) text ∧ s.reports = last.reports ∧
      (∀ d ∈ s.reports, d.span.start.offset < (Position.behindLine line).offset) ∧
      ∀ more final, statementList statement false s = .ok more final →
        statementList statement false (State.ofText options Position.origin (line ++ '\n' :: text)) =
          .ok (nodes ++ more) final := by
  refine exists_resume_of_left false hlist ?_ (fun hblocks => absurd hblocks Bool.false_ne_true) ?_
  · intro s hrounds _
    have hs : (State.ofText options Position.origin (line ++ ['\n'])).OnLine := by
      rw [State.ofText_line]
      exact hplain
    exact (hrounds.onLine hs).endsInNewline
  · intro _ slot hslot hbrace
    have hopener := (hplain.bracketless slot (List.mem_append_left _ hslot)).1
    rw [hbrace] at hopener
    cases hopener

end

/-- A broken line damages nothing behind it: what follows a line without brackets that no operator ends is
parsed as if it stood alone, whatever the line is and also if the text begins with a clause. -/
theorem parse_broken_line (w t : String) (options : Options) (hline : '\n' ∉ w.toList)
    (hbrackets : ∀ token ∈ tokenize w, token.kind.closer? = none ∧ token.kind.isCloser = false)
    (hlast : (trailingKind w).operatorForm? = none) :
    (parse (w ++ "\n" ++ t) options).root.children =
        (parse (w ++ "\n") options).root.children ++
          (parse t options).root.children.map (·.mapPositions (·.shiftedBy (w ++ "\n"))) ∧
      (parse (w ++ "\n" ++ t) options).diagnostics =
        (parse (w ++ "\n") options).diagnostics ++
          (parse t options).diagnostics.map (·.mapPositions (·.shiftedBy (w ++ "\n"))) := by
  have hbreak : (w ++ "\n").toList = w.toList ++ ['\n'] := by
    rw [String.toList_append]
    rfl
  obtain ⟨nodes, last, hlines, hresult⟩ := parseTokens_eq options Position.origin (w ++ "\n").toList
  obtain ⟨body, t₁, halone, hresult'⟩ := parseTokens_eq options Position.origin t.toList
  obtain ⟨whole, final, hwhole, hresult''⟩ :=
    parseTokens_eq options Position.origin (w ++ "\n" ++ t).toList
  rw [String.toList_append, hbreak, List.append_assoc, List.singleton_append] at hwhole
  rw [hbreak] at hlines
  obtain ⟨middle, hresumes, hreports, hbefore, hgoes⟩ :=
    exists_resume_of_line (Slot.line_significant hline hbrackets hlast) hlines
  rw [Position.behindLine_eq hbreak] at hresumes hbefore
  obtain ⟨more, s₁, hmore⟩ := succeeds_statementList statement false middle
  obtain ⟨rfl, later, hlater, hplaces, hsorted⟩ := hresumes.statements hmore halone
  have hboth := hgoes _ _ hmore
  rw [hwhole] at hboth
  obtain ⟨rfl, rfl⟩ := EStateM.Result.ok.inj hboth
  rw [parse_eq_parseTokens, parse_eq_parseTokens, parse_eq_parseTokens, hresult, hresult', hresult'']
  constructor
  · rfl
  · show final.diagnostics = last.diagnostics ++ _
    rw [← hsorted, State.diagnostics, State.diagnostics, hlater, ← hreports, List.reverse_append]
    apply Diagnostic.inSourceOrder_append
    · intro d hd
      exact hbefore d (List.mem_reverse.mp hd)
    · intro d hd
      rw [Position.shiftedBy, Nat.add_comm]
      exact hplaces d (List.mem_reverse.mp hd)

/-- An `if` without its block is broken, and the `else` on the next line is an error of its own. -/
theorem broken_if_before_else :
    '\n' ∉ "if a; use ~".toList ∧
      (∀ token ∈ tokenize "if a; use ~", token.kind.closer? = none ∧ token.kind.isCloser = false) ∧
      (trailingKind "if a; use ~").operatorForm? = none ∧
      (parse ("if a; use ~" ++ "\n" ++ "else \x7b c \x7d\nfor d \x7b\n") {}).root.children =
        (parse ("if a; use ~" ++ "\n") {}).root.children ++
          (parse "else \x7b c \x7d\nfor d \x7b\n" {}).root.children.map
            (·.mapPositions (·.shiftedBy ("if a; use ~" ++ "\n"))) ∧
      (parse ("if a; use ~" ++ "\n" ++ "else \x7b c \x7d\nfor d \x7b\n") {}).diagnostics.map (·.message) =
        ["expected `\x7b`, found \";\"", "illegal character: \"~\"", "expected expression, found \"else\"",
          "unterminated block opened at line 3"] := by
  have hline : '\n' ∉ "if a; use ~".toList := by decide
  have hbrackets : ∀ token ∈ tokenize "if a; use ~",
      token.kind.closer? = none ∧ token.kind.isCloser = false := by decide +kernel
  have hlast : (trailingKind "if a; use ~").operatorForm? = none := by decide +kernel
  obtain ⟨hroot, hdiagnostics⟩ :=
    parse_broken_line _ "else \x7b c \x7d\nfor d \x7b\n" {} hline hbrackets hlast
  refine ⟨hline, hbrackets, hlast, hroot, ?_⟩
  rw [hdiagnostics]
  decide +kernel

/-- Behind an operator the line is not over, and the two lines are one statement. -/
example : (trailingKind "a +").operatorForm?.isSome ∧
    (parse ("a +" ++ "\n" ++ "b") {}).root.children.length = 1 := by
  decide +kernel

end ScriptSyntax
