import ScriptSyntax.Proofs.Parsing.Enclosing
import ScriptSyntax.Proofs.Parsing.Located
import ScriptSyntax.Proofs.Parsing.Wrapped
import ScriptSyntax.Proofs.Token.Lines

/-!
Line breaks inside brackets.  A source without errors that is broken between two tokens of a list, an array, an
index or an object has no errors and the same tree exactly if a line may end with the first of the tokens or
begin with the second, `line_break_in_list`.
-/

namespace ScriptSyntax

/-! ### Trees that are the same up to their places -/

namespace Node

theorem errorNodes_bare (n : Node) : n.bare.errorNodes = n.errorNodes := by
  induction n with
  | node kind children span literal ih =>
      have hchildren : errorNodesOf (children.map bare) = errorNodesOf children := by
        induction children with
        | nil => rfl
        | cons child children ihrest =>
            obtain ⟨hchild, hlater⟩ := List.forall_mem_cons.mp ih
            rw [List.map_cons, errorNodesOf_cons, errorNodesOf_cons, hchild, ihrest hlater]
      rw [bare_mk, errorNodes_eq, errorNodes_eq]
      exact congrArg (· + _) hchildren

theorem containsErrors_bare (n : Node) : n.bare.containsErrors = n.containsErrors := by
  rw [Bool.eq_iff_iff, containsErrors_iff, containsErrors_iff, errorNodes_bare]

theorem ownDelimiter?_bare (kind : NodeKind) (children : List Node) :
    ownDelimiter? kind (children.map bare) = ownDelimiter? kind children := by
  unfold ownDelimiter?
  cases children with
  | nil => rfl
  | cons child children => simp [kind_bare]

theorem map_fst_brackets_bare (n : Node) : n.bare.brackets.map (·.1) = n.brackets.map (·.1) := by
  induction n with
  | node kind children span literal ih =>
      have hchildren : (bracketsList (children.map bare)).map (·.1) =
          (bracketsList children).map (·.1) := by
        induction children with
        | nil => rfl
        | cons child children ihrest =>
            obtain ⟨hchild, hlater⟩ := List.forall_mem_cons.mp ih
            rw [List.map_cons, bracketsList_cons, bracketsList_cons, List.map_append, List.map_append, hchild,
              ihrest hlater]
      rw [bare_mk, brackets_mk, brackets_mk, List.map_append, List.map_append, hchildren,
        ownDelimiter?_bare]
      cases ownDelimiter? kind children <;> rfl

end Node

/-! ### Breaks between the tokens of a frame -/

namespace Edge

variable {edge : Edge}

theorem pastAll_slots {o : Outline} (h : o.WellFormed) (edge : Edge) :
    edge.pastAll (o.slots.map Slot.kind) = edge.pastAll o.surface := by
  induction o generalizing edge with
  | nil => rfl
  | token slot rest ih => exact ih h.2 _
  | pair delimiter opener inside closer rest _ ih =>
      obtain ⟨hpair, -, -, -, hrest⟩ := h
      have hcloser : ∀ edge : Edge, edge.past closer.kind = shut := fun edge => past_closer hpair
      simp only [Outline.slots, Outline.surface, List.map_cons, List.map_append, pastAll, List.foldl_cons,
        List.foldl_append, hcloser]
      exact ih hrest shut

theorem pastAll_ne_path {kinds first rest : List TokenKind} (h : Spaced kinds)
    (hkinds : kinds = first ++ rest) (hedge : edge ≠ path) : edge.pastAll first ≠ path := by
  induction h generalizing edge first rest with
  | nil =>
      obtain ⟨rfl, -⟩ := List.append_eq_nil_iff.mp hkinds.symm
      exact hedge
  | token _ hcolon _ ih =>
      cases first with
      | nil => exact hedge
      | cons _ first =>
          obtain ⟨rfl, hlater⟩ := List.cons.inj hkinds
          exact @ih (edge.past _) first rest hlater (past_ne_path hedge hcolon)
  | key _ ih =>
      rcases first with _ | ⟨_, _ | ⟨_, first⟩⟩
      · exact hedge
      · cases hkinds
        show edge.past .string ≠ path
        exact past_ne_path hedge nofun
      · simp only [List.cons_append, List.cons.injEq] at hkinds
        obtain ⟨rfl, rfl, hkinds⟩ := hkinds
        exact @ih free first rest hkinds nofun
  | keyBroken _ ih =>
      rcases first with _ | ⟨_, _ | ⟨_, _ | ⟨_, first⟩⟩⟩
      · exact hedge
      · cases hkinds
        show edge.past .string ≠ path
        exact past_ne_path hedge nofun
      · cases hkinds
        show (edge.past .string).past .colon ≠ path
        exact nofun
      · simp only [List.cons_append, List.cons.injEq] at hkinds
        obtain ⟨rfl, rfl, rfl, rfl⟩ := hkinds
        exact @ih edge (.string :: .colon :: first) rest rfl hedge
  | @behind kind kinds hkind _ ih =>
      rcases first with _ | ⟨_, _ | ⟨_, first⟩⟩
      · exact hedge
      · cases hkinds
        exact @ih edge [kind] kinds rfl hedge
      · simp only [List.cons_append, List.cons.injEq] at hkinds
        obtain ⟨rfl, rfl, rfl⟩ := hkinds
        -- the break leaves no more of a path than there was before it
        intro hpath
        refine @ih edge (kind :: first) rest rfl hedge (eq_path_of_le ?_)
        rw [← hpath]
        exact pastAll_mono (le_free (edge.past kind)) first
  | before _ _ ih =>
      cases first with
      | nil => exact hedge
      | cons _ first =>
          obtain ⟨rfl, hlater⟩ := List.cons.inj hkinds
          exact @ih free first rest hlater nofun

end Edge

namespace Outline.Frame

variable {o o' : Outline} {before behind behind' : List Slot} {lineBreak : Slot}

theorem spaced (frame : o.Frame before behind) (hlist : frame.delimiter.isList) :
    Spaced (frame.opener.kind :: (frame.first.surface ++ (frame.second.surface ++ [frame.closer.kind]))) := by
  obtain ⟨-, -, hspaced, -⟩ := frame.wellFormed
  rw [← List.append_assoc, ← surface_append]
  exact hspaced hlist

theorem pastAll_ne_path (frame : o.Frame before behind) (hlist : frame.delimiter.isList) :
    Edge.shut.pastAll (before.map Slot.kind) ≠ .path := by
  obtain ⟨hpair, -, -, hinside, -⟩ := frame.wellFormed
  have hbefore : Edge.shut.pastAll (before.map Slot.kind) =
      Edge.shut.pastAll (frame.opener.kind :: frame.first.surface) := by
    have hopener : ∀ edge : Edge, edge.past frame.opener.kind = .free := Edge.past_opener hpair
    refine (congrArg (fun slots => Edge.shut.pastAll (slots.map Slot.kind)) frame.before_eq).trans ?_
    simp only [List.map_append, List.map_cons, Edge.pastAll, List.foldl_append, List.foldl_cons, hopener]
    exact Edge.pastAll_slots ((wellFormed_append _ _).mp hinside).1 .free
  rw [hbefore]
  exact Edge.pastAll_ne_path (frame.spaced hlist) (List.cons_append ..).symm nofun

theorem wraps (frame : o.Frame before behind) (hlist : frame.delimiter.isList)
    (hbreaks : (∃ last ∈ before.getLast?, last.kind.breaksBehind) ∨
      ∃ next ∈ behind.head?, next.kind.breaksBefore)
    (hline : lineBreak.kind = .newline) (hwords : behind'.map Slot.word = behind.map Slot.word) :
    Wraps .shut (before ++ behind) (before ++ lineBreak :: behind') := by
  refine .append rfl (.here hline (hbreaks.imp_left ?_) hwords)
  rintro ⟨last, hlast, hbehind⟩
  have hpath := frame.pastAll_ne_path hlist
  obtain ⟨earlier, rfl⟩ := List.getLast?_eq_some_iff.mp hlast
  simp only [List.map_append, List.map_cons, List.map_nil, Edge.pastAll, List.foldl_append, List.foldl_cons,
    List.foldl_nil] at hpath ⊢
  exact Edge.past_of_breaksBehind hbehind hpath

theorem getLast?_first (frame : o.Frame before behind) {last : Slot} (hlast : before.getLast? = some last) :
    (frame.opener.kind :: frame.first.surface).getLast? = some last.kind := by
  rw [frame.before_eq, List.getLast?_append, List.getLast?_cons] at hlast
  rw [List.getLast?_cons, getLast?_surface]
  cases hinner : frame.first.slots.getLast? with
  | none | some =>
      rw [hinner] at hlast
      exact congrArg (·.map Slot.kind) hlast

theorem exists_second (frame : o.Frame before (lineBreak :: behind)) (hline : lineBreak.kind = .newline) :
    ∃ rest, frame.second = token lineBreak rest ∧ behind = rest.slots ++ frame.closer :: frame.later := by
  obtain ⟨hpair, -, -, hinside, -⟩ := frame.wellFormed
  have hsplit := frame.behind_eq
  have hwell := ((wellFormed_append _ _).mp hinside).2
  cases hsecond : frame.second with
  | nil =>
      rw [hsecond] at hsplit
      obtain ⟨hcloser, -⟩ := List.cons.inj hsplit
      have hclosing := (TokenKind.isCloser_of_closer? hpair).1
      rw [← show lineBreak = _ from hcloser, hline] at hclosing
      cases hclosing
  | token slot rest =>
      rw [hsecond] at hsplit
      obtain ⟨rfl, hbehind⟩ := List.cons.inj hsplit
      exact ⟨rest, rfl, hbehind⟩
  | pair delimiter opener inside closer rest =>
      rw [hsecond] at hsplit hwell
      obtain ⟨rfl, -⟩ := List.cons.inj hsplit
      have hopener := hwell.1
      rw [hline] at hopener
      cases hopener

/-- A list that is read as one is broken nowhere else. -/
theorem breaks (frame : o.Frame before (lineBreak :: behind)) (hlist : frame.delimiter.isList)
    (hline : lineBreak.kind = .newline) {last next : Slot} (hlast : before.getLast? = some last)
    (hnext : behind.head? = some next) : last.kind.breaksBehind ∨ next.kind.breaksBefore := by
  obtain ⟨rest, hsecond, hbehind⟩ := frame.exists_second hline
  have hrest : (rest.surface ++ [frame.closer.kind]).head? = some next.kind := by
    rw [hbehind, List.head?_append] at hnext
    rw [List.head?_append, head?_surface]
    cases hinner : rest.slots.head? with
    | none | some =>
        rw [hinner] at hnext
        exact congrArg (·.map Slot.kind) hnext
  obtain ⟨earlier, hearlier⟩ := List.getLast?_eq_some_iff.mp (frame.getLast?_first hlast)
  obtain ⟨later, hlater⟩ := List.head?_eq_some_iff.mp hrest
  have hkinds : frame.opener.kind :: (frame.first.surface ++ (frame.second.surface ++ [frame.closer.kind])) =
      earlier ++ last.kind :: .newline :: next.kind :: later := by
    rw [hsecond, ← List.cons_append, hearlier, surface, List.cons_append, hlater, hline, List.append_assoc,
      List.singleton_append]
  exact (frame.spaced hlist).breaks hkinds

theorem delimiter_eq (frame : o.Frame before behind) {before' : List Slot} (frame' : o'.Frame before' behind')
    (hcloser : (Token.fromCloser 0 (behind'.map (·.token))).map (·.kind) =
      (Token.fromCloser 0 (behind.map (·.token))).map (·.kind))
    (hpairs : o'.pairs.map (·.1) = o.pairs.map (·.1)) : frame'.delimiter = frame.delimiter := by
  rw [frame.fromCloser_eq, frame'.fromCloser_eq] at hcloser
  have hlater : frame'.later.map Slot.kind = frame.later.map Slot.kind := by
    simp only [List.map_cons, List.map_map] at hcloser
    exact (List.cons.inj hcloser).2
  have hcount : ∀ slots : List Slot, slots.countP (·.kind.isCloser) = (slots.map Slot.kind).countP (·.isCloser) :=
    fun slots => by rw [List.countP_map]; rfl
  have hlength : (frame'.laterPairs.map (·.1)).length = (frame.laterPairs.map (·.1)).length := by
    rw [List.length_map, List.length_map, frame.length_laterPairs, frame'.length_laterPairs, hcount, hcount,
      hlater]
  rw [frame.pairs_eq, frame'.pairs_eq, List.map_append, List.map_append, List.map_cons, List.map_cons] at hpairs
  have hsplit := List.append_inj' hpairs (by simpa using hlength)
  exact (List.cons.inj hsplit.2).1

theorem exists_broken (frame : o.Frame before behind) (ho' : o'.WellFormed) {before' : List Slot}
    (hslots' : o'.slots = before' ++ lineBreak :: behind') (hline : lineBreak.kind = .newline)
    (hwords : behind'.map Slot.word = behind.map Slot.word)
    (hpairs : o'.pairs.map (·.1) = o.pairs.map (·.1)) :
    ∃ frame' : o'.Frame before' (lineBreak :: behind'), frame'.delimiter = frame.delimiter := by
  have hkinds : (behind'.map (·.token)).map (·.kind) = (behind.map (·.token)).map (·.kind) := by
    have hfirst := congrArg (List.map Prod.fst) hwords
    rw [List.map_map, List.map_map] at hfirst ⊢
    exact hfirst
  have hcloser : (Token.fromCloser 0 ((lineBreak :: behind').map (·.token))).map (·.kind) =
      (Token.fromCloser 0 (behind.map (·.token))).map (·.kind) := by
    have hplain : lineBreak.token.kind.isBracket = false := by
      rw [show lineBreak.token.kind = .newline from hline]
      rfl
    rw [List.map_cons, Token.fromCloser_of_not_bracket 0 hplain]
    exact Token.map_kind_fromCloser 0 hkinds
  obtain ⟨closer', hinside'⟩ : ∃ closer',
      Token.enclosing? ((lineBreak :: behind').map (·.token)) = some closer' := by
    rw [Token.enclosing?, ← Option.isSome_iff_exists, List.isSome_head?]
    intro hnil
    rw [hnil, frame.fromCloser_eq] at hcloser
    cases hcloser
  obtain ⟨frame', -⟩ := exists_frame ho' hslots' hinside'
  exact ⟨frame', frame.delimiter_eq frame' hcloser hpairs⟩

end Outline.Frame

/-! ### Texts that are broken behind a token -/

theorem Slot.map_word_significant (pending : Option Span) (tokens : List Token) :
    (Slot.significant pending tokens).map Slot.word = (tokens.filter (!·.kind.isTrivia)).map Token.word := by
  rw [← Slot.map_token_significant pending, List.map_map]
  rfl

theorem Token.Run.stop_eq {p q : Position} {tokens : List Token} (h : Token.Run p tokens q) :
    q = p.advancedBy (tokens.flatMap (·.text.toList)) := by
  induction tokens generalizing p with
  | nil => exact h
  | cons token tokens ih =>
      obtain ⟨-, hstop, -, -, hrest⟩ := h
      rw [ih hrest, hstop, List.flatMap_cons, Position.advancedBy_append]

theorem Token.Run.stop_of_mem {p q : Position} {tokens : List Token} (h : Token.Run p tokens q) :
    ∀ token ∈ tokens, token.span.stop = token.span.start.advancedBy token.text.toList := by
  induction tokens generalizing p with
  | nil => exact nofun
  | cons token tokens ih =>
      obtain ⟨hstart, hstop, -, -, hrest⟩ := h
      exact List.forall_mem_cons.mpr ⟨by rw [hstop, hstart], ih hrest⟩

namespace Scan

theorem map_word_lexemes (p q : Position) (text : List Char) :
    (lexemes p text).map Token.word = (lexemes q text).map Token.word := by
  induction p, text using induct generalizing q with
  | nil p => rfl
  | cons p c rest ih =>
      rw [lexemes_cons, lexemes_cons, List.map_cons, List.map_cons, ih (first q c rest).1.span.stop]
      rfl

theorem flatMap_of_stop {p : Position} {front rest : List Char} {before later : List Token} {last : Token}
    (h : lexemes p (front ++ rest) = before ++ last :: later)
    (hstop : last.span.stop.offset = p.offset + Text.byteLength front) :
    (before ++ [last]).flatMap (·.text.toList) = front := by
  have hrun := run_lexemes p (front ++ rest)
  have htext := flatMap_lexemes p (front ++ rest)
  rw [h] at hrun htext
  have hlength : Text.byteLength ((before ++ [last]).flatMap (·.text.toList)) = Text.byteLength front := by
    rw [hrun.stop_of_mem last (by simp), hrun.before.stop_eq, ← Position.advancedBy_append,
      Text.advancedBy_offset] at hstop
    rw [List.flatMap_append, List.flatMap_singleton]
    omega
  have hprefix : (before ++ [last]).flatMap (·.text.toList) <+: front ++ rest :=
    ⟨later.flatMap (·.text.toList), by rw [← List.flatMap_append]; simpa using htext⟩
  have hfront : front <+: front ++ rest := List.prefix_append front rest
  exact (Text.prefix_of_byteLength_le hprefix hfront (Nat.le_of_eq hlength)).eq_of_length_le
    (Text.prefix_of_byteLength_le hfront hprefix (Nat.le_of_eq hlength.symm)).length_le

end Scan

theorem exists_lexemes_of_enclosed {source : String} {passed ahead : List Token} {closer : Token}
    (htokens : tokenize source = passed ++ ahead) (henclosing : Token.enclosing? ahead = some closer) :
    ∃ later q, ahead = later ++ [Token.endOfFile q] ∧ Token.enclosing? later = some closer ∧
      Scan.lexemes Position.origin source.toList = passed ++ later := by
  rw [tokenize, Scan.tokens_eq] at htokens
  rcases List.eq_nil_or_concat ahead with rfl | ⟨later, last, rfl⟩
  · cases henclosing
  · rw [List.concat_eq_append] at htokens henclosing ⊢
    rw [← List.append_assoc] at htokens
    obtain ⟨hlexemes, hlast⟩ := List.append_inj' htokens rfl
    obtain rfl := List.singleton_inj.mp hlast
    rw [Token.enclosing?_endOfFile] at henclosing
    exact ⟨later, _, rfl, henclosing, hlexemes⟩

theorem head?_significant_of_enclosed {trivia behind later : List Token} {next closer : Token} {q : Position}
    (hlater : trivia ++ next :: behind = later ++ [Token.endOfFile q])
    (htrivia : ∀ token ∈ trivia, token.kind.isTrivia) (hnext : next.kind.isTrivia = false)
    (henclosing : Token.enclosing? later = some closer) :
    (Slot.significant none later).head?.map (·.token) = some next := by
  have hkept := congrArg (List.filter (!·.kind.isTrivia)) hlater
  have hnone : trivia.filter (!·.kind.isTrivia) = [] := by
    rw [List.filter_eq_nil_iff]
    intro token htoken
    simp [htrivia token htoken]
  rw [List.filter_append, List.filter_append, hnone, List.nil_append,
    List.filter_cons_of_pos (by simp [hnext])] at hkept
  rw [← List.head?_map, Slot.map_token_significant]
  cases hfilter : later.filter (!·.kind.isTrivia) with
  | nil =>
      rw [← Token.enclosing?_significant none, Slot.map_token_significant, hfilter] at henclosing
      cases henclosing
  | cons token tokens =>
      rw [hfilter] at hkept
      rw [List.head?_cons, (List.cons.inj hkept).1]

theorem exists_broken_slots {front rest : String} {before later : List Token} {first : Token}
    (hlexemes : Scan.lexemes Position.origin (front ++ rest).toList = before ++ first :: later)
    (hstop : first.span.stop.offset = front.utf8ByteSize) (hfirst : first.kind.isTrivia = false) :
    ∃ (passed ahead' : List Slot) (lineBreak : Slot),
      Slot.significant none (Scan.lexemes Position.origin (front ++ rest).toList) =
        passed ++ Slot.significant none later ∧
      Slot.significant none (Scan.lexemes Position.origin (front ++ "\n" ++ rest).toList) =
        passed ++ lineBreak :: ahead' ∧
      passed.getLast?.map (·.token) = some first ∧ lineBreak.kind = .newline ∧
      ahead'.map Slot.word = (Slot.significant none later).map Slot.word := by
  rw [String.toList_append] at hlexemes
  have hfront : (before ++ [first]).flatMap (·.text.toList) = front.toList := by
    refine Scan.flatMap_of_stop hlexemes ?_
    rw [hstop, Text.byteLength_toList]
    exact (Nat.zero_add _).symm
  rw [List.append_cons] at hlexemes
  obtain ⟨hpassed, hlater⟩ := Scan.lexemes_flatMap hlexemes
  have hrest : later.flatMap (·.text.toList) = rest.toList := by
    have htext := Scan.flatMap_lexemes Position.origin (front.toList ++ rest.toList)
    rw [hlexemes, List.flatMap_append, hfront] at htext
    exact List.append_cancel_left htext
  rw [hfront] at hpassed hlater
  rw [hrest] at hlater
  have hpending : Slot.pendingAfter none (before ++ [first]) = none := by
    rw [Slot.pendingAfter_append, Slot.pendingAfter_token hfirst]
    rfl
  let place := Position.origin.advancedBy front.toList
  refine ⟨Slot.significant none (before ++ [first]),
    Slot.significant none (Scan.lexemes (place.next '\n') rest.toList),
    ⟨⟨.newline, "\n", ⟨place, place.next '\n'⟩⟩, none⟩, ?_, ?_, ?_, rfl, ?_⟩
  · rw [String.toList_append, hlexemes, Slot.significant_append, hpending]
  · rw [String.toList_append, String.toList_append, List.append_assoc]
    show Slot.significant none (Scan.lexemes _ (front.toList ++ '\n' :: rest.toList)) = _
    rw [Scan.lexemes_line, Scan.lexemes_newline, hpassed, Slot.significant_append, hpending,
      Slot.significant_token rfl]
  · rw [Slot.significant_append, Slot.significant_token hfirst, List.getLast?_append]
    rfl
  · have hwords : (Scan.lexemes (place.next '\n') rest.toList).map Token.word = later.map Token.word := by
      rw [Scan.map_word_lexemes _ (Position.origin.advancedBy front.toList), hlater]
    have hkept : ∀ tokens : List Token, (tokens.filter (!·.kind.isTrivia)).map Token.word =
        (tokens.map Token.word).filter (!·.1.isTrivia) := by
      intro tokens
      rw [List.filter_map]
      rfl
    rw [Slot.map_word_significant, Slot.map_word_significant, hkept, hkept, hwords]

/-! ### Lists that are broken -/

/-- A source with a line break more where a list may be broken has the same tree. -/
theorem parse_wrapped {source broken : String} {options : Options}
    (hclean : (parse source options).hasErrors = false)
    (h : Wraps .shut (State.ofSource source options).rest (State.ofSource broken options).rest) :
    (parse broken options).hasErrors = false ∧
      (parse broken options).root.bare = (parse source options).root.bare := by
  obtain ⟨body, s', hroot, hdiagnostics, hreads, -⟩ := parse_reads source options
  have hquiet : (State.ofSource source options).Quiet s' :=
    Nat.le_of_eq (ParseResult.errorCount_eq_zero hdiagnostics hclean)
  have hwraps : (State.ofSource source options).Wraps .shut (State.ofSource broken options) :=
    ⟨h, (State.depth_ofSource broken options).trans (State.depth_ofSource source options).symm⟩
  obtain ⟨body', t', hreads', hsame, -⟩ :=
    (hreads.of_quiet hquiet).wrapped (Node.error default []) hwraps.free
  have hbare : (parse broken options).root.bare = (parse source options).root.bare := by
    rw [parse_of_reads hreads', hroot]
    exact hsame.bare _ _ _ _
  refine ⟨?_, hbare⟩
  rw [hasErrors_parse broken options, ← Node.containsErrors_bare, hbare,
    Node.containsErrors_bare, ← hasErrors_parse source options, hclean]

theorem State.pairwise_stop_ofSource (source : String) (options : Options) :
    (State.ofSource source options).rest.Pairwise fun a b =>
      a.token.span.stop.offset < b.token.span.stop.offset :=
  (bounded_ofSource source options).ordered.pairwise_stop

theorem Outline.Frame.isList {o : Outline} {before behind : List Slot} (frame : o.Frame before behind)
    {root : Node} (hbrackets : root.brackets = o.brackets)
    (hordered : o.slots.Pairwise fun a b => a.token.span.stop.offset < b.token.span.stop.offset)
    (hlist : frame.closer.token.kind ≠ .rightBrace ∨ root.endsList frame.closer.token) :
    frame.delimiter.isList := by
  obtain ⟨-, hcloser, -⟩ := frame.wellFormed
  rw [Delimiter.isList, hcloser, Bool.or_eq_true, decide_eq_true_eq]
  rcases hlist with hkind | hends
  · exact .inr hkind
  · exact .inl ((Outline.endsList_closer hbrackets hordered _ frame.mem_pairs).symm.trans hends)

/-- Of a source without errors that is broken inside a list, an array, an index or an object, the tree is the
same exactly if a line may end with the token before the break or begin with the one behind it. -/
theorem line_break_in_list {front rest : String} {options : Options} {before trivia behind : List Token}
    {first next closer : Token} (hclean : (parse (front ++ rest) options).hasErrors = false)
    (htokens : tokenize (front ++ rest) = before ++ first :: (trivia ++ next :: behind))
    (hstop : first.span.stop.offset = front.utf8ByteSize) (hfirst : first.kind.isTrivia = false)
    (htrivia : ∀ token ∈ trivia, token.kind.isTrivia) (hnext : next.kind.isTrivia = false)
    (henclosing : Token.enclosing? (trivia ++ next :: behind) = some closer)
    (hlist : closer.kind ≠ .rightBrace ∨ (parse (front ++ rest) options).root.endsList closer) :
    (parse (front ++ "\n" ++ rest) options).hasErrors = false ∧
        (parse (front ++ "\n" ++ rest) options).root.bare = (parse (front ++ rest) options).root.bare ↔
      first.kind.breaksBehind ∨ next.kind.breaksBefore := by
  rw [List.append_cons] at htokens
  obtain ⟨later, q, hlater, hinside, hlexemes⟩ := exists_lexemes_of_enclosed htokens henclosing
  have hahead := head?_significant_of_enclosed hlater htrivia hnext hinside
  rw [← List.append_cons] at hlexemes
  obtain ⟨passed, ahead', lineBreak, hslots, hslots', hlast, hline, hwords⟩ :=
    exists_broken_slots hlexemes hstop hfirst
  obtain ⟨last, hpassed, rfl⟩ := Option.map_eq_some_iff.mp hlast
  obtain ⟨following, hfollowing, rfl⟩ := Option.map_eq_some_iff.mp hahead
  rw [← Token.enclosing?_significant none] at hinside
  obtain ⟨o, _, -, ho, hcovered, hbrackets⟩ := parse_outlined hclean
  obtain ⟨frame, rfl⟩ := Outline.exists_frame ho.wellFormed (hcovered.trans hslots) hinside
  have hisList : frame.delimiter.isList := by
    refine frame.isList hbrackets ?_ hlist
    rw [hcovered, ← rest_ofSource (front ++ rest) options]
    exact State.pairwise_stop_ofSource _ _
  constructor
  · rintro ⟨hclean', hbare⟩
    obtain ⟨o', _, -, ho', hcovered', hbrackets'⟩ := parse_outlined hclean'
    have hpairs : o'.pairs.map (·.1) = o.pairs.map (·.1) := by
      rw [← Outline.map_fst_brackets, ← Outline.map_fst_brackets, ← hbrackets, ← hbrackets',
        ← Node.map_fst_brackets_bare, hbare, Node.map_fst_brackets_bare]
    obtain ⟨frame', hdelimiter⟩ :=
      frame.exists_broken ho'.wellFormed (hcovered'.trans hslots') hline hwords hpairs
    obtain ⟨following', hfollowing', hword⟩ : ∃ following', ahead'.head? = some following' ∧
        following'.word = following.word := by
      rw [← Option.map_eq_some_iff, Slot.head?_word hwords, hfollowing]
      rfl
    have hbreaks := frame'.breaks (hdelimiter ▸ hisList) hline hpassed hfollowing'
    rw [show following'.kind = following.token.kind from congrArg Prod.fst hword] at hbreaks
    exact hbreaks
  · intro hbreaks
    refine parse_wrapped hclean ?_
    rw [rest_ofSource, rest_ofSource, hslots, hslots']
    exact frame.wraps hisList (hbreaks.imp (⟨last, hpassed, ·⟩) (⟨following, hfollowing, ·⟩)) hline hwords

theorem line_break_behind_colon :
    (parse ("x = \x7b\"k\":" ++ "\n" ++ " f(b)\x7d") {}).hasErrors = false ∧
      (parse ("x = \x7b\"k\":" ++ "\n" ++ " f(b)\x7d") {}).root.bare =
        (parse ("x = \x7b\"k\":" ++ " f(b)\x7d") {}).root.bare := by
  let source := "x = \x7b\"k\":" ++ " f(b)\x7d"
  let colon : Token := ⟨.colon, ":", ⟨⟨8, 1, 9⟩, ⟨9, 1, 10⟩⟩⟩
  let blank : Token := ⟨.whitespace, " ", ⟨⟨9, 1, 10⟩, ⟨10, 1, 11⟩⟩⟩
  let callee : Token := ⟨.identifier, "f", ⟨⟨10, 1, 11⟩, ⟨11, 1, 12⟩⟩⟩
  have htokens : tokenize source =
      (tokenize source).take 6 ++ colon :: ([blank] ++ callee :: (tokenize source).drop 9) := by
    decide +kernel
  have henclosing : Token.enclosing? ([blank] ++ callee :: (tokenize source).drop 9) =
      some ⟨.rightBrace, "\x7d", ⟨⟨14, 1, 15⟩, ⟨15, 1, 16⟩⟩⟩ := by
    decide +kernel
  have hobject : (parse source {}).root.endsList ⟨.rightBrace, "\x7d", ⟨⟨14, 1, 15⟩, ⟨15, 1, 16⟩⟩⟩ := by
    decide +kernel
  exact (line_break_in_list (by decide +kernel) htokens rfl rfl (by decide) rfl henclosing (.inr hobject)).mpr
    (.inl rfl)

theorem line_break_before_operator :
    let source := "f(a" ++ " + b)"
    let name : Token := ⟨.identifier, "a", ⟨⟨2, 1, 3⟩, ⟨3, 1, 4⟩⟩⟩
    let blank : Token := ⟨.whitespace, " ", ⟨⟨3, 1, 4⟩, ⟨4, 1, 5⟩⟩⟩
    let plus : Token := ⟨.operator .plus, "+", ⟨⟨4, 1, 5⟩, ⟨5, 1, 6⟩⟩⟩
    let behind := (tokenize source).drop 5
    (parse source {}).hasErrors = false ∧
      tokenize source = (tokenize source).take 2 ++ name :: ([blank] ++ plus :: behind) ∧
      (Token.enclosing? ([blank] ++ plus :: behind)).map (·.kind) = some .rightParen ∧
      (parse ("f(a" ++ "\n" ++ " + b)") {}).hasErrors ∧
      (parse ("f(a" ++ "\n" ++ " + b)") {}).root.bare ≠ (parse source {}).root.bare := by
  decide +kernel

end ScriptSyntax
