import ScriptSyntax.Proofs.Parsing.Places
import ScriptSyntax.Proofs.Token.Prefix

/-!
A parse that is taken up again before a statement.  What a source gives from a statement on is what the text
from there on gives alone, `Restarts.statementList`; and sources that begin alike go through the same rounds
up to a statement before the place where they differ, `exists_restart`.
-/

namespace ScriptSyntax

open ScriptSyntax.Parser

theorem State.bounded_ofText (options : Options) (p : Position) (text : List Char) :
    ∃ last eof, (State.ofText options p text).Bounded last eof := by
  rw [State.ofText_eq]
  exact ⟨_, _, (Scan.run_lexemes p text).ordered (Nat.le_refl _) none, rfl, rfl⟩

theorem ready_pastSeparators {options : Options} {p : Position} {text : List Char} {s : State}
    (hadvances : (State.ofText options p text).Advances s.pastSeparators)
    (hmore : atListEnd false s.pastSeparators = false) : s.pastSeparators.Ready := by
  have hdelimiters : s.pastSeparators.delimiters = [] := by
    rw [hadvances.delimiters, State.ofText_eq]
  refine ⟨hdelimiters, ?_⟩
  simpa [State.atBoundary, hdelimiters, s.isSeparator_pastSeparators, atListEnd] using hmore

/-! ### The rest of a source -/

/-- The state is at the top of a source, where a statement begins at `p` and `text` is left to read. -/
structure State.Restarts (s : State) (options : Options) (p : Position) (text : List Char) : Prop where
  ready : s.Ready
  depth : s.depth = 0
  options : s.options = options
  endOfFile : s.endOfFile = p.advancedBy text
  rest : s.uncommented.rest = Slot.significant none (Scan.lexemes p text)
  commentAtEnd : s.commentAtEnd = Slot.pendingAfter none (Scan.lexemes p text)

section
variable {s : State} {options : Options} {p : Position} {text : List Char}

/-- A cut with nothing behind it, for a run that begins where another one is. -/
def Cut.atState (s : State) (p : Position) : Cut where
  first := []
  second := []
  skipped := s.consumed
  earlier := s.reports
  holds q := p.offset ≤ q.offset
  blocks := true
  blind := .inl ⟨rfl, rfl⟩

theorem State.Restarts.alike (h : s.Restarts options p text) :
    (Cut.atState s p).Alike s.uncommented (State.ofText options p text) := by
  have hrun := Scan.run_lexemes p text
  obtain ⟨hle, hmem⟩ := hrun.start_mem
  rw [State.ofText_eq]
  exact
    { rest := by
        refine ⟨Slot.significant none (Scan.lexemes p text), ?_, ?_, ?_⟩
        · rw [h.rest]
          exact (List.append_nil _).symm
        · exact (List.append_nil _).symm
        · have hlies := @Slot.start_significant (fun q => p.offset ≤ q.offset) none (Scan.lexemes p text)
            nofun fun token htoken => (hmem token htoken).1
          exact fun slot hslot => ⟨hlies slot hslot, nofun⟩
      ends := fun _ => ⟨h.endOfFile, h.commentAtEnd, by
        show p.offset ≤ s.endOfFile.offset
        rw [h.endOfFile]
        exact hle⟩
      consumed := (Nat.zero_add _).symm
      previousEnd := nofun
      delimiters := h.ready.delimiters
      depth := h.depth
      options := h.options
      reports := rfl
      lies := nofun }

theorem State.Restarts.statementList (h : s.Restarts options p text) {body : List Node} {s₁ : State}
    (hlist : Parser.statementList statement false s = .ok body s₁) :
    ∃ s₂, Parser.statementList statement false (State.ofText options p text) = .ok body s₂ ∧
      s₁.reports = s₂.reports ++ s.reports ∧ ∀ d ∈ s₂.reports, p.offset ≤ d.span.start.offset := by
  have hagrees := Cut.local_statementList Cut.local_statement false _ _ h.alike
  rw [statementList_uncommented h.ready, hlist] at hagrees
  generalize Parser.statementList statement false (State.ofText options p text) = second at hagrees
  -- nothing is behind this cut, so the run at the end of the source cannot be past it
  cases hagrees with
  | @ok _ _ s₂ _ hstates => exact ⟨s₂, rfl, hstates.reports, hstates.lies⟩
  | okBeyond hbeyond => exact absurd hbeyond (Nat.not_lt_zero _)

end

theorem State.diagnostics_eq_append {s t : State} {earlier : List Diagnostic} {offset : Nat}
    (hreports : s.reports = t.reports ++ earlier)
    (hearlier : ∀ d ∈ earlier, d.span.start.offset < offset)
    (hlater : ∀ d ∈ t.reports, offset ≤ d.span.start.offset) :
    s.diagnostics = Diagnostic.inSourceOrder earlier.reverse ++ t.diagnostics ∧
      s.diagnostics.filter (·.span.start.offset < offset) =
        Diagnostic.inSourceOrder earlier.reverse := by
  have hwhole : s.diagnostics = Diagnostic.inSourceOrder earlier.reverse ++ t.diagnostics := by
    rw [State.diagnostics, hreports, List.reverse_append]
    refine @Diagnostic.inSourceOrder_append _ _ offset ?_ ?_
    · exact fun d hd => hearlier d (List.mem_reverse.mp hd)
    · exact fun d hd => hlater d (List.mem_reverse.mp hd)
  have hmem : ∀ {ds : List Diagnostic} {d : Diagnostic},
      d ∈ Diagnostic.inSourceOrder ds.reverse → d ∈ ds := by
    intro ds d hd
    exact List.mem_reverse.mp ((Diagnostic.inSourceOrder_perm _).mem_iff.mp hd)
  refine ⟨hwhole, ?_⟩
  rw [hwhole, List.filter_append, List.filter_eq_self.mpr, List.filter_eq_nil_iff.mpr,
    List.append_nil]
  · intro d hd
    simpa using hlater d (hmem hd)
  · intro d hd
    simpa using hearlier d (hmem hd)

/-! ### Sources that begin alike -/

/-- A token of the kind is seen as the first one of a statement, and not as one that belongs to what was
before it: it is neither trivia nor a separator, and no clause begins with it. -/
structure TokenKind.StandsApart (kind : TokenKind) : Prop where
  isTrivia : kind.isTrivia = false
  isSeparator : kind.isSeparator = false
  clauseKind? : Parser.clauseKind? kind = none

theorem Slot.clauseKind?_separators {separators slots : List Slot} {slot : Slot}
    (hseparators : ∀ separator ∈ separators, separator.kind.isSeparator) (hslot : slot.kind.StandsApart) :
    Parser.clauseKind? (Slot.kindPastNewlines (separators ++ slot :: slots)) = none := by
  induction separators with
  | nil =>
      have hnewline : slot.kind ≠ .newline := by
        intro hnewline
        have hseparator := hslot.isSeparator
        rw [hnewline] at hseparator
        cases hseparator
      simpa [Slot.kindPastNewlines, hnewline] using hslot.clauseKind?
  | cons separator separators ih =>
      obtain ⟨hfirst, hrest⟩ := List.forall_mem_cons.mp hseparators
      by_cases hnewline : separator.kind = .newline
      · simpa [Slot.kindPastNewlines, hnewline] using ih hrest
      · have hsemicolon : Parser.clauseKind? separator.kind = none := by
          unfold TokenKind.isSeparator at hfirst
          split at hfirst
          · rename_i hkind
            rw [hkind]
            rfl
          · rename_i hkind
            rw [hkind]
            rfl
          · cases hfirst
        simpa [Slot.kindPastNewlines, hnewline] using hsemicolon

/-- A source is cut before a token.  `passed` are the tokens before the cut, blanks and comments
included. -/
structure SourceCut (before behind : List Char) (passed : List Token) (token : Token)
    (later : List Token) : Prop where
  lexemes : Scan.lexemes Position.origin (before ++ behind) = passed ++ token :: later
  behind : Scan.lexemes token.span.start behind = token :: later
  start : Position.origin.advancedBy before = token.span.start
  apart : token.kind.StandsApart

namespace SourceCut

variable {before behind behind' : List Char} {passed later later' : List Token} {token token' : Token}
  {options : Options}

/-- The first token behind the cut, with the comment before it. -/
def slot (passed : List Token) (token : Token) : Slot :=
  ⟨token, Slot.pendingAfter none passed⟩

theorem rest (h : SourceCut before behind passed token later) (options : Options) :
    (State.ofText options Position.origin (before ++ behind)).rest =
      Slot.significant none passed ++ slot passed token :: Slot.significant none later := by
  rw [State.ofText_eq]
  show Slot.significant none (Scan.lexemes Position.origin (before ++ behind)) = _
  rw [h.lexemes, Slot.significant_append, Slot.significant_token h.apart.isTrivia]
  rfl

theorem run (h : SourceCut before behind passed token later) :
    Token.Run Position.origin (passed ++ token :: later)
      (Position.origin.advancedBy (before ++ behind)) :=
  h.lexemes ▸ Scan.run_lexemes Position.origin (before ++ behind)

theorem lies (h : SourceCut before behind passed token later) :
    ∀ slot ∈ Slot.significant none passed, slot.Lies fun q => q.offset < token.span.start.offset := by
  obtain ⟨-, hmem⟩ := h.run.before.start_mem
  exact @Slot.start_significant (fun q => q.offset < token.span.start.offset) none passed nofun
    fun earlier hearlier => (hmem earlier hearlier).2

theorem restarts (h : SourceCut before behind passed token later) {nodes : List Node} {s : State}
    (hrounds : Rounds nodes (State.ofText options Position.origin (before ++ behind)) s)
    (hrest : s.pastSeparators.rest = slot passed token :: Slot.significant none later) :
    s.pastSeparators.Restarts options token.span.start behind := by
  have hadvances := hrounds.advances.trans s.advances_pastSeparators
  have hdepth : s.pastSeparators.depth = s.depth :=
    Steps.pastWhile (R := fun s s' => s'.depth = s.depth) _ _ _
  rw [hrounds.depth] at hdepth
  rw [State.ofText_eq] at hadvances hdepth
  have hkind : s.pastSeparators.kind = token.kind := State.kind_of_cons hrest
  have hmore : token.kind ≠ .endOfFile := h.run.kind_ne token (by simp)
  refine ⟨⟨hadvances.delimiters, ?_⟩, hdepth, hadvances.options, ?_, ?_, ?_⟩
  · simp [State.atBoundary, hadvances.delimiters, hkind, h.apart.isSeparator, hmore]
  · rw [hadvances.endOfFile, ← h.start, ← Position.advancedBy_append]
  · rw [h.behind, Slot.significant_token h.apart.isTrivia, State.uncommented, hrest]
    rfl
  · rw [hadvances.commentAtEnd, h.behind, h.lexemes, Slot.pendingAfter_append,
      Slot.pendingAfter_token h.apart.isTrivia, Slot.pendingAfter_token h.apart.isTrivia]

/-- The separators before the token are left behind the cut of the two runs: a round ends before the first
of them, and no look past them finds a clause. -/
theorem alike (h : SourceCut before behind passed token later)
    (h' : SourceCut before behind' passed token' later') (options : Options)
    {first separators : List Slot} {separator : Slot}
    (hpassed : Slot.significant none passed = first ++ separator :: separators)
    (hseparators : ∀ slot ∈ separator :: separators, slot.kind.isSeparator) :
    ∃ cut : Cut, cut.first = separator :: separators ++ slot passed token :: Slot.significant none later ∧
      cut.second = separator :: separators ++ slot passed token' :: Slot.significant none later' ∧
      cut.earlier = [] ∧ cut.holds = (fun q => q.offset < token.span.start.offset) ∧
      cut.Alike (State.ofText options Position.origin (before ++ behind))
        (State.ofText options Position.origin (before ++ behind')) := by
  have hlies := h.lies
  rw [hpassed] at hlies
  refine ⟨{
    first := separator :: separators ++ slot passed token :: Slot.significant none later
    second := separator :: separators ++ slot passed token' :: Slot.significant none later'
    skipped := 0
    earlier := []
    holds := fun q => q.offset < token.span.start.offset
    blocks := true
    blind := .inr ⟨separator, _, _, rfl, rfl, hseparators separator (by simp),
      (hlies separator (by simp)).1, fun _ => ⟨Slot.clauseKind?_separators hseparators h.apart,
        Slot.clauseKind?_separators hseparators h'.apart⟩⟩ }, rfl, rfl, rfl, rfl, ?_⟩
  have hrest := h.rest options
  have hrest' := h'.rest options
  rw [hpassed, List.append_assoc, State.ofText_eq] at hrest hrest'
  rw [State.ofText_eq, State.ofText_eq]
  exact
    { rest := ⟨first, hrest, hrest', fun slot hslot => ⟨hlies slot (by simp [hslot]), nofun⟩⟩
      ends := fun hnone => absurd hnone (by simp)
      consumed := rfl
      previousEnd := fun _ => rfl
      delimiters := rfl
      depth := rfl
      options := rfl
      reports := rfl
      lies := nofun }

theorem separators (h : SourceCut before behind passed token later) {nodes : List Node} {s : State}
    (hrounds : Rounds nodes (State.ofText options Position.origin (before ++ behind)) s)
    (hnodes : nodes ≠ [])
    (hrest : s.pastSeparators.rest = slot passed token :: Slot.significant none later) :
    ∃ first separator separators, Slot.significant none passed = first ++ separator :: separators ∧
      (∀ slot ∈ separator :: separators, slot.kind.isSeparator) ∧
      s.rest = separator :: separators ++ slot passed token :: Slot.significant none later := by
  have hkind : s.pastSeparators.kind = token.kind := State.kind_of_cons hrest
  have hmore : s.kind ≠ .endOfFile := by
    intro hend
    have hsame : s.pastSeparators = s := State.pastWhile_eq_self (by rw [hend]; rfl)
    rw [hsame, hend] at hkind
    exact h.run.kind_ne token (by simp) hkind.symm
  have hseparator : s.kind.isSeparator := by
    rcases hrounds.separated with ⟨hnone, -⟩ | hseparator | hend
    · exact absurd hnone hnodes
    · exact hseparator
    · exact absurd (by simpa [atListEnd] using hend) hmore
  obtain ⟨separator, slots, hslots⟩ := State.exists_rest_eq_cons hmore
  have hfirst : separator.kind.isSeparator := by
    rw [← State.kind_of_cons hslots]
    exact hseparator
  have hdrop : slots.dropWhile (·.kind.isSeparator) =
      slot passed token :: Slot.significant none later := by
    rw [← hrest, State.pastSeparators, State.rest_pastWhile, hslots]
    exact (List.dropWhile_cons_of_pos (p := fun slot : Slot => slot.kind.isSeparator) hfirst).symm
  have hcut : s.rest = separator :: slots.takeWhile (·.kind.isSeparator) ++
      slot passed token :: Slot.significant none later := by
    rw [← hdrop, hslots, List.cons_append, List.takeWhile_append_dropWhile]
  obtain ⟨first, hwhole⟩ := hrounds.advances.rest
  rw [h.rest, hcut, ← List.append_assoc] at hwhole
  refine ⟨first, separator, _, (List.append_cancel_right hwhole).symm, ?_, hcut⟩
  refine List.forall_mem_cons.mpr ⟨hfirst, ?_⟩
  intro later hlater
  exact List.mem_takeWhile_imp (p := fun slot : Slot => slot.kind.isSeparator) hlater

theorem rounds (h : SourceCut before behind passed token later)
    (h' : SourceCut before behind' passed token' later') {nodes : List Node} {s : State}
    (hrounds : Rounds nodes (State.ofText options Position.origin (before ++ behind)) s)
    (hnodes : nodes ≠ [])
    (hrest : s.pastSeparators.rest = slot passed token :: Slot.significant none later) :
    ∃ t, Rounds nodes (State.ofText options Position.origin (before ++ behind')) t ∧
      t.pastSeparators.rest = slot passed token' :: Slot.significant none later' ∧
      s.pastSeparators.reports = t.pastSeparators.reports ∧
      ∀ d ∈ t.pastSeparators.reports, d.span.start.offset < token.span.start.offset := by
  obtain ⟨first, separator, separators, hpassed, hseparators, hnear⟩ :=
    h.separators hrounds hnodes hrest
  obtain ⟨cut, hfirst, hsecond, hearlier, hholds, hstates⟩ :=
    h.alike h' options hpassed hseparators
  have hreached : s.rest = cut.first := hnear.trans hfirst.symm
  obtain ⟨t, hrounds', hlast⟩ := hrounds.alike hstates (by simp [Cut.Beyond, hreached])
  obtain ⟨between, hs, ht, -⟩ := hlast.rest
  have hnone : between = [] := by
    rw [hreached] at hs
    exact List.append_left_eq_self.mp hs.symm
  have hpast : ∀ {s' : State} {behind : List Char},
      Rounds nodes (State.ofText options Position.origin (before ++ behind)) s' →
        s'.pastSeparators.reports = s'.reports := by
    intro s' behind hrounds
    refine State.reports_pastWhile ?_ _ _
    rw [hrounds.advances.delimiters, State.ofText_eq]
  refine ⟨t, hrounds', ?_, ?_, ?_⟩
  · rw [State.pastSeparators, State.rest_pastWhile, ht, hnone, hsecond, List.nil_append,
      List.dropWhile_append_of_pos hseparators,
      List.dropWhile_cons_of_neg (by simp [slot, Slot.kind, h'.apart.isSeparator])]
  · rw [hpast hrounds, hpast hrounds', hlast.reports, hearlier, List.append_nil]
  · rw [hpast hrounds']
    have hlies := hlast.lies
    rwa [hholds] at hlies

end SourceCut

/-- A token that ends before the place where two texts differ begins a token of both that no statement before
it can tell apart. -/
theorem exists_sourceCuts {same x y : List Char} {passed later : List Token} {token : Token}
    (h : Scan.lexemes Position.origin (same ++ x) = passed ++ token :: later)
    (hapart : token.kind.StandsApart)
    (hstop : token.span.stop.offset < (Position.origin.advancedBy same).offset) :
    ∃ before known token' later', same = before ++ known ∧ token'.span.start = token.span.start ∧
      SourceCut before (known ++ x) passed token later ∧
      SourceCut before (known ++ y) passed token' later' := by
  obtain ⟨before, c, known, rfl, hstart, hbehind, hextra, hsame⟩ := Scan.exists_known_lexemes h hstop
  have hbehind' := Scan.lexemes_cons token.span.start c (known ++ y)
  have hwhole := hsame y
  rw [hbehind', List.append_assoc] at hwhole
  have htoken : (Scan.first token.span.start c (known ++ x)).1 = token := by
    rw [Scan.lexemes_cons] at hbehind
    exact (List.cons.inj hbehind).1
  -- a number may go on in the other text, or a string may end there, but such a token stands apart too
  have hapart' : (Scan.first token.span.start c (known ++ y)).1.kind.StandsApart := by
    rw [← htoken] at hapart
    exact Scan.kind_known ⟨rfl, rfl, rfl⟩ ⟨rfl, rfl, rfl⟩ ⟨rfl, rfl, rfl⟩ hextra hapart
  rw [List.append_assoc] at h
  exact ⟨before, c :: known, (Scan.first token.span.start c (known ++ y)).1, _, rfl, rfl,
    ⟨h, hbehind, hstart, hapart⟩, ⟨hwhole, hbehind', hstart, hapart'⟩⟩

theorem exists_token_of_statement {options : Options} {p : Position} {text : List Char} {s s' : State}
    {node : Node} (hadvances : (State.ofText options p text).Advances s) (hready : s.Ready)
    (hrun : statement s = .ok node s') :
    ∃ passed token later, Scan.lexemes p text = passed ++ token :: later ∧
      s.rest = SourceCut.slot passed token :: Slot.significant none later ∧
      token.kind.isTrivia = false ∧ node.span.start = token.span.start ∧
      token.span.stop.offset ≤ node.span.stop.offset := by
  obtain ⟨⟨token, comment⟩, slots, hslots⟩ := State.exists_rest_eq_cons hready.kind_ne
  have hcurrent : s.current = token := congrArg Slot.token (State.slot_of_cons hslots)
  obtain ⟨last, eof, hbounded⟩ := State.bounded_ofText options p text
  obtain ⟨hstart, hstop⟩ := span_of_statement (hbounded.advances hadvances) hready hrun
  rw [hcurrent] at hstart hstop
  obtain ⟨significant, hsignificant⟩ := hadvances.rest
  rw [hslots, State.ofText_eq] at hsignificant
  obtain ⟨passed, later, htokens, -, hcomment, htrivia, hlater⟩ :=
    Slot.exists_of_significant hsignificant.symm
  refine ⟨passed, token, later, htokens, ?_, htrivia, hstart, hstop⟩
  rw [hslots, hlater, SourceCut.slot, hcomment]

/-- Statements before one that ends before the place where two texts differ are read alike in both, and
where that statement begins each text can be parsed again. -/
theorem exists_restart {options : Options} {same x y : List Char} {body : List Node} {last : State}
    {kept : Nat} {node : Node}
    (hlist : Parser.statementList statement false (State.ofText options Position.origin (same ++ x)) =
      .ok body last)
    (hnode : body[kept]? = some node) (hkept : kept ≠ 0) (hwhole : node.isError = false)
    (hstop : node.span.stop.offset < (Position.origin.advancedBy same).offset) :
    ∃ before known s t, same = before ++ known ∧ Position.origin.advancedBy before = node.span.start ∧
      Parser.statementList statement false s = .ok (body.drop kept) last ∧
      Rounds (body.take kept) (State.ofText options Position.origin (same ++ y)) t ∧
      s.Restarts options node.span.start (known ++ x) ∧
      t.pastSeparators.Restarts options node.span.start (known ++ y) ∧
      s.reports = t.pastSeparators.reports ∧
      ∀ d ∈ s.reports, d.span.start.offset < node.span.start.offset := by
  obtain ⟨s, _, hrounds, hmore, hstatement, hrest⟩ := exists_rounds hlist hnode hwhole
  have hadvances := hrounds.advances.trans s.advances_pastSeparators
  have hready := ready_pastSeparators hadvances hmore
  obtain ⟨passed, token, later, htokens, hnext, htrivia, hstart, hreach⟩ :=
    exists_token_of_statement hadvances hready hstatement
  have hkind : s.pastSeparators.kind = token.kind := State.kind_of_cons hnext
  have hapart : token.kind.StandsApart := by
    rw [← hkind]
    exact ⟨by rw [hkind]; exact htrivia, hready.isSeparator, clauseKind?_of_statement hready hstatement⟩
  obtain ⟨before, known, token', later', rfl, hstart', hcut, hcut'⟩ :=
    exists_sourceCuts (y := y) htokens hapart (Nat.lt_of_le_of_lt hreach hstop)
  have hnodes : body.take kept ≠ [] := by
    have hlength := (List.getElem?_eq_some_iff.mp hnode).1
    refine List.ne_nil_of_length_pos ?_
    rw [List.length_take]
    omega
  rw [List.append_assoc] at hrounds
  obtain ⟨t, hrounds', hnext', hreports, hbefore⟩ := hcut.rounds hcut' hrounds hnodes hnext
  refine ⟨before, known, s.pastSeparators, t, rfl, ?_, ?_, ?_, ?_, ?_, hreports, ?_⟩
  · rw [hcut.start, hstart]
  · rw [statementList_pastSeparators, hrest]
  · rw [List.append_assoc]
    exact hrounds'
  · rw [hstart]
    exact hcut.restarts hrounds hnext
  · rw [hstart, ← hstart']
    exact hcut'.restarts hrounds' hnext'
  · rw [hstart, hreports]
    exact hbefore

theorem parse_eq_of_restart {options : Options} {source edited : String} {same x y : List Char}
    {kept : Nat} {node : Node} (hsource : source.toList = same ++ x) (hedited : edited.toList = same ++ y)
    (hnode : (parse source options).root.children[kept]? = some node) (hkept : kept ≠ 0)
    (hwhole : node.isError = false)
    (hstop : node.span.stop.offset < (Position.origin.advancedBy same).offset) :
    ∃ before known result, same = before ++ known ∧
      Position.origin.advancedBy before = node.span.start ∧
      (parseTokens options node.span.start (Scan.tokens node.span.start (known ++ y))).1 = result ∧
      parse edited options =
        ⟨Node.branch .sourceFile ⟨Position.origin, result.root.span.stop⟩
            ((parse source options).root.children.take kept ++ result.root.children),
          (parse source options).diagnostics.filter
            (·.span.start.offset < node.span.start.offset) ++ result.diagnostics⟩ := by
  obtain ⟨body, last, hlist, hresult⟩ := parseTokens_eq options Position.origin source.toList
  obtain ⟨body', last', hlist', hresult'⟩ := parseTokens_eq options Position.origin edited.toList
  rw [← parse_eq_parseTokens] at hresult hresult'
  rw [hresult] at hnode ⊢
  rw [hsource] at hlist
  rw [hedited] at hlist' hresult'
  obtain ⟨before, known, s, t, rfl, hstart, hrest, hrounds, hold, hnew, hreports, hbefore⟩ :=
    exists_restart (y := y) hlist hnode hkept hwhole hstop
  -- both texts are parsed to their ends from that statement on, each as a text of its own
  obtain ⟨final, -, hfinal, hlate⟩ := hold.statementList hrest
  obtain ⟨more, last'', hmore⟩ := succeeds_statementList statement false t.pastSeparators
  obtain ⟨final', hlist'', hfinal', hlate'⟩ := hnew.statementList hmore
  have hwhole' := hrounds.statementList (by rw [← statementList_pastSeparators]; exact hmore)
  rw [hlist'] at hwhole'
  obtain ⟨rfl, rfl⟩ := EStateM.Result.ok.inj hwhole'
  obtain ⟨_, _, hsame, hparsed⟩ := parseTokens_eq options node.span.start (known ++ y)
  rw [hlist''] at hsame
  obtain ⟨rfl, rfl⟩ := EStateM.Result.ok.inj hsame
  obtain ⟨-, hearly⟩ := State.diagnostics_eq_append hfinal hbefore hlate
  rw [hreports] at hbefore hearly
  obtain ⟨hdiagnostics, -⟩ := State.diagnostics_eq_append hfinal' hbefore hlate'
  refine ⟨before, known, _, rfl, hstart, hparsed, ?_⟩
  rw [hresult', hdiagnostics]
  simp only [Node.branch, hearly, List.append_assoc, Position.advancedBy_append, hstart]

end ScriptSyntax
