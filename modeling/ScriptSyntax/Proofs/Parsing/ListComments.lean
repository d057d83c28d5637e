import ScriptSyntax.Proofs.Diagnostic.Order
import ScriptSyntax.Proofs.Parsing.Enclosing
import ScriptSyntax.Proofs.Token.Lines

/-!
Comments in lists of expressions.  A source without errors is warned about exactly for the comments that stand
directly inside the brackets of such a list, `comment_warnings`.
-/

namespace ScriptSyntax

/-- The comments whose innermost pair of brackets is a list; `isList` tells of a closing bracket whether it
closes one. -/
def Token.commentsIn (isList : Token → Bool) : List Token → List Token
  | [] => []
  | token :: tokens =>
      if token.kind = .comment && (enclosing? tokens).any isList then token :: commentsIn isList tokens
      else commentsIn isList tokens

/-! ### Comments before the tokens of an outline -/

/-- The comments before tokens that stand directly in a list. -/
def Slot.commentsIn (isList : Token → Bool) : List Slot → List Span
  | [] => []
  | slot :: slots =>
      (if (Token.enclosing? ((slot :: slots).map (·.token))).any isList then slot.commentBefore.toList
        else []) ++ commentsIn isList slots

theorem Slot.commentsEndLines_significant {pending : Option Span} {tokens : List Token}
    (hlines : tokens.IsChain fun a b => a.kind = .comment → b.kind = .newline)
    (hpending : pending ≠ none → ∀ token ∈ tokens.head?, token.kind = .newline) :
    CommentsEndLines (Slot.significant pending tokens) := by
  induction tokens generalizing pending with
  | nil => exact nofun
  | cons token tokens ih =>
      obtain ⟨hfirst, hlater⟩ := List.isChain_cons.mp hlines
      rcases Slot.trivia_cases token.kind with hkind | hkind | hkind
      · rw [Slot.significant_whitespace hkind]
        refine ih hlater fun hsome => ?_
        have hnewline := hpending hsome token rfl
        rw [hkind] at hnewline
        cases hnewline
      · rw [Slot.significant_comment hkind]
        exact ih hlater fun _ next hnext => hfirst next hnext hkind
      · rw [Slot.significant_token hkind]
        refine List.forall_mem_cons.mpr ⟨fun hsome => ?_, ih hlater (absurd rfl)⟩
        exact hpending (Option.isSome_iff_ne_none.mp hsome) token rfl

theorem Slot.commentsIn_significant (isList : Token → Bool) {pending : Option Span} {tokens : List Token}
    (hlines : tokens.IsChain fun a b => a.kind = .comment → b.kind = .newline)
    (hpending : pending ≠ none → ∀ token ∈ tokens.head?, token.kind = .newline) :
    Slot.commentsIn isList (Slot.significant pending tokens) =
      (if (Token.enclosing? tokens).any isList then pending.toList else []) ++
        (Token.commentsIn isList tokens).map (·.span) := by
  induction tokens generalizing pending with
  | nil => rfl
  | cons token tokens ih =>
      obtain ⟨hfirst, hlater⟩ := List.isChain_cons.mp hlines
      have hnone : token.kind ≠ .newline → pending = none := by
        intro hkind
        by_contra hsome
        exact hkind (hpending hsome token rfl)
      rcases Slot.trivia_cases token.kind with hkind | hkind | hkind
      · rw [Slot.significant_whitespace hkind, hnone (by rw [hkind]; exact nofun), ih hlater (absurd rfl),
          Token.commentsIn, hkind]
        simp
      · rw [Slot.significant_comment hkind, hnone (by rw [hkind]; exact nofun),
          ih hlater (fun _ next hnext => hfirst next hnext hkind), Token.commentsIn, hkind]
        simp only [decide_true, Bool.true_and]
        split <;> simp
      · have hcomment : token.kind ≠ .comment := by
          intro hcomment
          rw [hcomment] at hkind
          cases hkind
        rw [Slot.significant_token hkind, Slot.commentsIn, ih hlater (absurd rfl), Token.commentsIn]
        have henclosing : Token.enclosing? ((⟨token, pending⟩ :: Slot.significant none tokens).map (·.token)) =
            Token.enclosing? (token :: tokens) := by
          rw [← Slot.significant_token hkind]
          exact Token.enclosing?_significant pending _
        rw [henclosing]
        simp [hcomment]

theorem Outline.commentsIn_slots {isList : Token → Bool} {o : Outline} (h : o.WellFormed)
    (hcomments : CommentsEndLines o.slots)
    (hlists : ∀ pair ∈ o.pairs, isList pair.2.token = pair.1.expressionList) (slots : List Slot) :
    Slot.commentsIn isList (o.slots ++ slots) =
      o.comments ((Token.enclosing? (slots.map (·.token))).any isList) ++ Slot.commentsIn isList slots := by
  induction o generalizing slots with
  | nil => rfl
  | token slot rest ih =>
      have hclosed := Token.fromCloser_outline 0 h (slots.map (·.token))
      rw [← List.map_append] at hclosed
      rw [Outline.slots, List.cons_append, Slot.commentsIn, Outline.comments, List.append_assoc,
        ← ih h.2 (fun later hlater => hcomments later (List.mem_cons_of_mem _ hlater)) hlists]
      exact congrArg (fun tokens : List Token =>
        (if tokens.head?.any isList then slot.commentBefore.toList else []) ++ _) hclosed
  | pair delimiter opener inside closer rest ihinside ihrest =>
      obtain ⟨hpair, -, -, hinside, hrest⟩ := h
      obtain ⟨hcloser, hclosed⟩ := TokenKind.isCloser_of_closer? hpair
      have hplain : ∀ slot ∈ (pair delimiter opener inside closer rest).slots,
          slot.kind ≠ .newline → slot.commentBefore.toList = [] := by
        intro slot hslot hkind
        cases hcomment : slot.commentBefore with
        | none => rfl
        | some span => exact absurd (hcomments slot hslot (by simp [hcomment])) hkind
      have hopenerNone := hplain opener (by simp [Outline.slots]) (by
        intro hkind
        rw [hkind] at hpair
        cases hpair)
      have hcloserNone := hplain closer (by simp [Outline.slots]) (by
        intro hkind
        rw [hkind] at hcloser
        cases hcloser)
      have hwithin := ihinside hinside
        (fun later hlater => hcomments later (by simp [Outline.slots, hlater]))
        (fun pair hmem => hlists pair (by simp [Outline.pairs, hmem])) (closer :: (rest.slots ++ slots))
      have hbehind := ihrest hrest
        (fun later hlater => hcomments later (by simp [Outline.slots, hlater]))
        (fun pair hmem => hlists pair (by simp [Outline.pairs, hmem])) slots
      have hlist : (Token.enclosing? ((closer :: (rest.slots ++ slots)).map (·.token))).any isList =
          delimiter.expressionList := by
        rw [List.map_cons, Token.enclosing?_closer hcloser hclosed]
        exact hlists (delimiter, closer) (by simp [Outline.pairs])
      rw [hlist] at hwithin
      simp only [Outline.slots, List.cons_append, List.append_assoc, Slot.commentsIn, hopenerNone, hwithin,
        hcloserNone, hbehind, Outline.comments, ite_self, List.nil_append]

/-! ### Warnings -/

theorem Token.commentsIn_sublist (isList : Token → Bool) (tokens : List Token) :
    (Token.commentsIn isList tokens).Sublist tokens := by
  induction tokens with
  | nil => exact .slnil
  | cons token tokens ih =>
      unfold Token.commentsIn
      split
      · exact ih.cons_cons token
      · exact ih.cons token

theorem Token.commentsIn_endOfFile (isList : Token → Bool) (tokens : List Token) (p : Position) :
    Token.commentsIn isList (tokens ++ [Token.endOfFile p]) = Token.commentsIn isList tokens := by
  induction tokens with
  | nil => rfl
  | cons token tokens ih => rw [List.cons_append, commentsIn, commentsIn, ih, enclosing?_endOfFile]

theorem Diagnostic.inSourceOrder_eq_self {ds : List Diagnostic} (h : ds.Pairwise NotBehind) :
    inSourceOrder ds = ds := by
  induction ds with
  | nil => rfl
  | cons d ds ih =>
      obtain ⟨hfirst, hrest⟩ := List.pairwise_cons.mp h
      show insertInOrder d (inSourceOrder ds) = _
      rw [ih hrest, insertInOrder_of_notBehind hfirst]

theorem Token.Run.pairwise_start {p q : Position} {tokens : List Token} (h : Token.Run p tokens q) :
    tokens.Pairwise fun a b => a.span.start.offset ≤ b.span.start.offset := by
  induction tokens generalizing p with
  | nil => exact .nil
  | cons token tokens ih =>
      have hwidth := h.width
      obtain ⟨hstart, -, -, -, hrest⟩ := h
      refine List.pairwise_cons.mpr ⟨fun later hlater => ?_, ih hrest⟩
      have hplace := hrest.start_mem.2 later hlater
      rw [hstart]
      omega

theorem State.watched_ofSource (source : String) : (State.ofSource source ⟨true⟩).Watched := by
  have hlines := Scan.isChain_lexemes Position.origin source.toList
  refine ⟨?_, ?_⟩
  · rw [State.ofSource, tokenize, State.ofTokens_lexemes]
  · rw [rest_ofSource]
    exact Slot.commentsEndLines_significant hlines (absurd rfl)

/-- The diagnostics of a source without errors are the warnings for the comments whose innermost pair of
brackets is a list of expressions, each once and in the order of the source. -/
theorem comment_warnings {source : String} (hclean : (parse source ⟨true⟩).hasErrors = false) :
    (parse source ⟨true⟩).diagnostics =
      (Token.commentsIn (parse source ⟨true⟩).root.endsList (tokenize source)).map
        fun comment => State.commentWarning comment.span := by
  obtain ⟨o, s, hdiagnostics, ho, hslots, hbrackets⟩ := parse_outlined hclean
  have hwatched := State.watched_ofSource source
  have hcomments : CommentsEndLines o.slots := by
    rw [hslots, ← rest_ofSource source ⟨true⟩]
    exact hwatched.2
  have hordered : o.slots.Pairwise fun a b => a.token.span.stop.offset < b.token.span.stop.offset := by
    rw [hslots, ← rest_ofSource source ⟨true⟩]
    exact (bounded_ofSource source ⟨true⟩).ordered.pairwise_stop
  have hreports : s.reports.reverse = (o.comments false).map State.commentWarning := by
    rw [ho.reports hwatched, State.ofSource, tokenize, State.ofTokens_lexemes, List.append_nil,
      List.reverse_reverse]
    rfl
  have hwarned : o.comments false =
      (Token.commentsIn (parse source ⟨true⟩).root.endsList (tokenize source)).map (·.span) := by
    have houtline := Outline.commentsIn_slots ho.wellFormed hcomments
      (Outline.endsList_closer hbrackets hordered) []
    have hlines := Scan.isChain_lexemes Position.origin source.toList
    calc o.comments false
        = Slot.commentsIn (parse source ⟨true⟩).root.endsList (o.slots ++ []) :=
          (houtline.trans (List.append_nil _)).symm
      _ = (Token.commentsIn (parse source ⟨true⟩).root.endsList
            (Scan.lexemes Position.origin source.toList)).map (·.span) := by
          rw [List.append_nil, hslots, Slot.commentsIn_significant _ hlines (absurd rfl)]
          split <;> rfl
      _ = _ := by rw [tokenize, Scan.tokens_eq, Token.commentsIn_endOfFile]
  rw [hdiagnostics, State.diagnostics, hreports, hwarned, List.map_map]
  refine Diagnostic.inSourceOrder_eq_self (List.pairwise_map.mpr ?_)
  rw [tokenize, Scan.tokens_eq, Token.commentsIn_endOfFile]
  exact (Scan.run_lexemes Position.origin source.toList).pairwise_start.sublist (Token.commentsIn_sublist _ _)

/-- The comments on the elements of an array and on an argument are warned about, the one in the body of a
function between them is not. -/
theorem comment_warnings_around_function :
    (parse "x = [1, // one\nfn(a) \x7b // body\n g(2 // two\n) \x7d // three\n]" ⟨true⟩).hasErrors = false ∧
      (parse "x = [1, // one\nfn(a) \x7b // body\n g(2 // two\n) \x7d // three\n]" ⟨true⟩).diagnostics =
        (Token.commentsIn
          (parse "x = [1, // one\nfn(a) \x7b // body\n g(2 // two\n) \x7d // three\n]" ⟨true⟩).root.endsList
          (tokenize "x = [1, // one\nfn(a) \x7b // body\n g(2 // two\n) \x7d // three\n]")).map
          (fun comment => State.commentWarning comment.span) ∧
      Token.commentsIn
          (parse "x = [1, // one\nfn(a) \x7b // body\n g(2 // two\n) \x7d // three\n]" ⟨true⟩).root.endsList
          (tokenize "x = [1, // one\nfn(a) \x7b // body\n g(2 // two\n) \x7d // three\n]") =
        [⟨.comment, "// one", ⟨⟨8, 1, 9⟩, ⟨14, 1, 15⟩⟩⟩, ⟨.comment, "// two", ⟨⟨36, 3, 6⟩, ⟨42, 3, 12⟩⟩⟩,
          ⟨.comment, "// three", ⟨⟨47, 4, 5⟩, ⟨55, 4, 13⟩⟩⟩] ∧
      (parse "x = [1, // one\nfn(a) \x7b // body\n g(2 // two\n) \x7d // three\n]" ⟨true⟩).diagnostics =
        [State.commentWarning ⟨⟨8, 1, 9⟩, ⟨14, 1, 15⟩⟩, State.commentWarning ⟨⟨36, 3, 6⟩, ⟨42, 3, 12⟩⟩,
          State.commentWarning ⟨⟨47, 4, 5⟩, ⟨55, 4, 13⟩⟩] := by
  have hclean : (parse "x = [1, // one\nfn(a) \x7b // body\n g(2 // two\n) \x7d // three\n]" ⟨true⟩).hasErrors =
      false := by decide +kernel
  have hwarned := comment_warnings hclean
  have hcomments : Token.commentsIn
      (parse "x = [1, // one\nfn(a) \x7b // body\n g(2 // two\n) \x7d // three\n]" ⟨true⟩).root.endsList
      (tokenize "x = [1, // one\nfn(a) \x7b // body\n g(2 // two\n) \x7d // three\n]") =
        [⟨.comment, "// one", ⟨⟨8, 1, 9⟩, ⟨14, 1, 15⟩⟩⟩, ⟨.comment, "// two", ⟨⟨36, 3, 6⟩, ⟨42, 3, 12⟩⟩⟩,
          ⟨.comment, "// three", ⟨⟨47, 4, 5⟩, ⟨55, 4, 13⟩⟩⟩] := by decide +kernel
  refine ⟨hclean, hwarned, hcomments, hwarned.trans ?_⟩
  rw [hcomments]
  rfl

end ScriptSyntax
