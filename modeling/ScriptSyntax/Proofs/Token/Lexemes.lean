import ScriptSyntax.Parsing.State
import ScriptSyntax.Text.Slice
import ScriptSyntax.Token.Scan

/-!
The tokens of a text, one after the other.  `lexemes` are the tokens without the end of the file; they
cover the text without a gap, `run_lexemes`, and the state before the first of them is given by
`State.ofTokens_lexemes`.
-/

namespace ScriptSyntax

namespace Scan

theorem tokensAfter_eq_append (done : List Token) (p : Position) (skip : Nat) (text : List Char) :
    tokensAfter done p skip text = done.reverse ++ tokensAfter [] p skip text := by
  induction text generalizing done p skip with
  | nil => simp [tokensAfter]
  | cons c rest ih =>
      cases skip with
      | zero =>
          simp only [tokensAfter]
          rw [ih (_ :: done), ih [_]]
          simp
      | succ skip =>
          simp only [tokensAfter]
          exact ih done p skip

theorem tokensAfter_skip (p : Position) (skip : Nat) (text : List Char) :
    tokensAfter [] p skip text = tokens p (text.drop skip) := by
  induction skip generalizing text with
  | zero => rfl
  | succ skip ih =>
      cases text with
      | nil => simp [tokens, tokensAfter]
      | cons c rest => rw [tokensAfter, ih, List.drop_succ_cons]

theorem tokens_nil (p : Position) : tokens p [] = [Token.endOfFile p] := rfl

theorem tokens_cons (p : Position) (c : Char) (rest : List Char) :
    tokens p (c :: rest) =
      (first p c rest).1 :: tokens (first p c rest).1.span.stop (rest.drop (first p c rest).2) := by
  simp only [tokens, tokensAfter]
  rw [tokensAfter_eq_append, tokensAfter_skip]
  rfl

theorem induct {motive : Position → List Char → Prop} (nil : ∀ p, motive p [])
    (cons : ∀ p c rest, motive (first p c rest).1.span.stop (rest.drop (first p c rest).2) →
      motive p (c :: rest)) (p : Position) (text : List Char) : motive p text := by
  induction hlength : text.length using Nat.strongRecOn generalizing p text with
  | ind length ih =>
      cases text with
      | nil => exact nil p
      | cons c rest =>
          refine cons p c rest (ih _ ?_ _ _ rfl)
          simp only [List.length_cons, List.length_drop] at hlength ⊢
          omega

/-- The tokens of a text that begins at `p`, without the end of the file. -/
def lexemes (p : Position) (text : List Char) : List Token :=
  (tokens p text).dropLast

theorem tokens_ne_nil (p : Position) (text : List Char) : tokens p text ≠ [] := by
  cases text with
  | nil => simp [tokens_nil]
  | cons c rest => simp [tokens_cons]

@[simp] theorem lexemes_nil (p : Position) : lexemes p [] = [] := rfl

theorem lexemes_cons (p : Position) (c : Char) (rest : List Char) :
    lexemes p (c :: rest) =
      (first p c rest).1 :: lexemes (first p c rest).1.span.stop (rest.drop (first p c rest).2) := by
  rw [lexemes, tokens_cons, List.dropLast_cons_of_ne_nil (tokens_ne_nil _ _)]
  rfl

theorem advancedBy_first (p : Position) (c : Char) (rest : List Char) :
    (first p c rest).1.span.stop.advancedBy (rest.drop (first p c rest).2) =
      p.advancedBy (c :: rest) := by
  simp only [first]
  rw [← Position.advancedBy_append, List.cons_append, List.take_append_drop]

theorem tokens_eq (p : Position) (text : List Char) :
    tokens p text = lexemes p text ++ [Token.endOfFile (p.advancedBy text)] := by
  induction p, text using induct with
  | nil p => rfl
  | cons p c rest ih => rw [tokens_cons, lexemes_cons, ih, advancedBy_first, List.cons_append]

end Scan

/-- The tokens lie one behind the other from `p` to `q`, and each is as long as its text. -/
def Token.Run (p : Position) : List Token → Position → Prop
  | [], q => q = p
  | token :: tokens, q =>
      token.span.start = p ∧ token.span.stop = p.advancedBy token.text.toList ∧
        token.text.toList ≠ [] ∧ token.kind ≠ .endOfFile ∧ Run token.span.stop tokens q

namespace Scan

def symbolKinds : List TokenKind :=
  [.error .illegalCharacter, .semicolon, .leftBrace, .rightBrace, .leftBracket, .rightBracket,
    .leftParen, .rightParen, .comma, .colon, .dot] ++ Operator.all.map .operator

def wordKinds : List TokenKind :=
  [.identifier, .boolean] ++ Keyword.all.map .keyword

theorem kind_mem_symbolKinds (c : Char) (rest : List Char) : (symbol c rest).1 ∈ symbolKinds := by
  unfold symbol
  split
  · rename_i kind hkind
    obtain ⟨d, -, hpair⟩ := Option.bind_eq_some_iff.mp hkind
    unfold pairKind? at hpair
    split at hpair <;> cases hpair
    all_goals decide
  · unfold singleKind?
    split
    all_goals decide

theorem wordKind_mem_wordKinds (word : List Char) : wordKind word ∈ wordKinds := by
  unfold wordKind TokenKind.reserved?
  split
  · decide
  · cases Keyword.all.find? (·.spelling = String.ofList word) with
    | none => decide
    | some k => exact List.mem_append_right _ (List.mem_map_of_mem k.mem_all)

theorem kind_symbol (c : Char) (rest : List Char) :
    (symbol c rest).1 ≠ .endOfFile ∧ (symbol c rest).1.isTrivia = false := by
  have hkinds : ∀ kind ∈ symbolKinds, kind ≠ .endOfFile ∧ kind.isTrivia = false := by decide
  exact hkinds _ (kind_mem_symbolKinds c rest)

theorem kind_wordKind (word : List Char) :
    wordKind word ≠ .endOfFile ∧ (wordKind word).isTrivia = false := by
  have hkinds : ∀ kind ∈ wordKinds, kind ≠ .endOfFile ∧ kind.isTrivia = false := by decide
  exact hkinds _ (wordKind_mem_wordKinds word)

theorem wordKind_ne_error (word : List Char) (error : LexicalError) : wordKind word ≠ .error error := by
  have hkinds : ∀ error ∈ LexicalError.all, ∀ kind ∈ wordKinds, kind ≠ .error error := by decide
  exact hkinds error error.mem_all _ (wordKind_mem_wordKinds word)

/-- What the first character of a token says about its class, whatever stands behind it. -/
inductive Begins (c : Char) : Prop
  | spacing (hread : ∀ rest, classify c rest = (.whitespace, runLength isSpacing rest))
  | newline (hread : ∀ rest, classify c rest = (.newline, 0))
  | slash (hread : ∀ rest, classify c rest =
      if rest.head? = some '/' then (.comment, runLength (· ≠ '\n') rest) else symbol c rest)
  | word (hread : ∀ rest, classify c rest =
      (wordKind (c :: rest.takeWhile isWordTail), runLength isWordTail rest))
  | number (hread : ∀ rest, classify c rest = (.number, numberLength rest))
  | string (hescape : c ≠ '\\') (hread : ∀ rest, classify c rest = string c rest)
  | symbol (hread : ∀ rest, classify c rest = symbol c rest)

theorem begins (c : Char) : Begins c := by
  by_cases hspacing : isSpacing c
  · exact .spacing fun _ => by rw [classify, if_pos hspacing]
  by_cases hnewline : c = '\n'
  · exact .newline fun _ => by rw [classify, if_neg hspacing, if_pos hnewline]
  by_cases hslash : c = '/'
  · subst hslash
    refine .slash fun rest => ?_
    rw [classify, if_neg hspacing, if_neg hnewline]
    simp only [true_and]
    rfl
  have hcomment : ∀ rest : List Char, ¬(c = '/' ∧ rest.head? = some '/') := fun _ h => hslash h.1
  by_cases halpha : c.isAlpha
  · exact .word fun rest => by
      rw [classify, if_neg hspacing, if_neg hnewline, if_neg (hcomment rest), if_pos halpha]
  by_cases hdigit : c.isDigit
  · exact .number fun rest => by
      rw [classify, if_neg hspacing, if_neg hnewline, if_neg (hcomment rest), if_neg halpha,
        if_pos hdigit]
  by_cases hquote : c = '"' ∨ c = '\''
  · refine .string (by rcases hquote with rfl | rfl <;> decide) fun rest => ?_
    rw [classify, if_neg hspacing, if_neg hnewline, if_neg (hcomment rest), if_neg halpha,
      if_neg hdigit, if_pos hquote]
  · exact .symbol fun rest => by
      rw [classify, if_neg hspacing, if_neg hnewline, if_neg (hcomment rest), if_neg halpha,
        if_neg hdigit, if_neg hquote]

theorem kind_string (quote : Char) (rest : List Char) :
    (string quote rest).1 = .string ∨ (string quote rest).1 = .error .unterminatedString := by
  unfold string
  simp only
  split
  · exact .inl rfl
  · exact .inr rfl

theorem kind_classify_ne (c : Char) (rest : List Char) : (classify c rest).1 ≠ .endOfFile := by
  cases begins c with
  | spacing hread | newline hread | number hread =>
      rw [hread]
      exact nofun
  | slash hread =>
      rw [hread]
      split
      · exact nofun
      · exact (kind_symbol c rest).1
  | word hread =>
      rw [hread]
      exact (kind_wordKind _).1
  | string _ hread =>
      rw [hread]
      rcases kind_string c rest with hkind | hkind
      · simp [hkind]
      · simp [hkind]
  | symbol hread =>
      rw [hread]
      exact (kind_symbol c rest).1

theorem run_lexemes (p : Position) (text : List Char) :
    Token.Run p (lexemes p text) (p.advancedBy text) := by
  induction p, text using induct with
  | nil p => rfl
  | cons p c rest ih =>
      rw [lexemes_cons]
      rw [advancedBy_first] at ih
      refine ⟨rfl, ?_, ?_, kind_classify_ne c rest, ih⟩
      · simp [first]
      · simp [first]

theorem flatMap_lexemes (p : Position) (text : List Char) :
    (lexemes p text).flatMap (·.text.toList) = text := by
  induction p, text using induct with
  | nil p => rfl
  | cons p c rest ih =>
      rw [lexemes_cons, List.flatMap_cons, ih]
      simp [first]

theorem exists_first_of_tokens {p : Position} {text : List Char} {before behind : List Token} {token : Token}
    (htokens : tokens p text = before ++ token :: behind) (hkind : token.kind ≠ .endOfFile) :
    ∃ passed c rest, text = passed ++ c :: rest ∧ token = (first (p.advancedBy passed) c rest).1 ∧
      behind = tokens token.span.stop (rest.drop (first (p.advancedBy passed) c rest).2) := by
  induction before generalizing p text with
  | nil =>
      cases text with
      | nil =>
          rw [tokens_nil, List.nil_append, List.cons.injEq] at htokens
          rw [← htokens.1] at hkind
          exact absurd rfl hkind
      | cons c rest =>
          rw [tokens_cons, List.nil_append, List.cons.injEq] at htokens
          obtain ⟨rfl, hbehind⟩ := htokens
          exact ⟨[], c, rest, rfl, rfl, hbehind.symm⟩
  | cons earlier before ih =>
      cases text with
      | nil =>
          rw [tokens_nil, List.cons_append, List.cons.injEq] at htokens
          simp at htokens
      | cons c rest =>
          rw [tokens_cons, List.cons_append, List.cons.injEq] at htokens
          obtain ⟨passed, d, later, hrest, htoken, hbehind⟩ := ih htokens.2
          have hstop : (first p c rest).1.span.stop.advancedBy passed =
              p.advancedBy (c :: rest.take (first p c rest).2 ++ passed) := by
            rw [Position.advancedBy_append]
            rfl
          rw [hstop] at htoken hbehind
          refine ⟨c :: rest.take (first p c rest).2 ++ passed, d, later, ?_, htoken, hbehind⟩
          rw [List.append_assoc, ← hrest, List.cons_append, List.take_append_drop]

end Scan

namespace Slot

/-- The tokens of a sequence without its trivia; `pending` is the comment before them. -/
def significant (pending : Option Span) (tokens : List Token) : List Slot :=
  collect [] pending tokens

/-- The comment that the token after a sequence claims. -/
def pendingAfter (pending : Option Span) : List Token → Option Span
  | [] => pending
  | token :: tokens =>
      match token.kind with
      | .whitespace => pendingAfter pending tokens
      | .comment => pendingAfter (some token.span) tokens
      | _ => pendingAfter none tokens

theorem collect_eq_append (done : List Slot) (pending : Option Span) (tokens : List Token) :
    collect done pending tokens = done.reverse ++ significant pending tokens := by
  induction tokens generalizing done pending with
  | nil => simp [collect, significant]
  | cons token tokens ih =>
      unfold significant collect
      split
      · exact ih done pending
      · exact ih done _
      · rw [ih, ih [_]]
        simp

section
variable {pending : Option Span} {token : Token} {tokens : List Token}

theorem significant_whitespace (hkind : token.kind = .whitespace) :
    significant pending (token :: tokens) = significant pending tokens := by
  simp [significant, collect, hkind]

theorem significant_comment (hkind : token.kind = .comment) :
    significant pending (token :: tokens) = significant (some token.span) tokens := by
  simp [significant, collect, hkind]

theorem significant_token (hkind : token.kind.isTrivia = false) :
    significant pending (token :: tokens) = ⟨token, pending⟩ :: significant none tokens := by
  rw [significant, collect]
  split
  · simp_all [TokenKind.isTrivia]
  · simp_all [TokenKind.isTrivia]
  · rw [collect_eq_append]
    rfl

theorem pendingAfter_whitespace (hkind : token.kind = .whitespace) :
    pendingAfter pending (token :: tokens) = pendingAfter pending tokens := by
  simp [pendingAfter, hkind]

theorem pendingAfter_comment (hkind : token.kind = .comment) :
    pendingAfter pending (token :: tokens) = pendingAfter (some token.span) tokens := by
  simp [pendingAfter, hkind]

theorem pendingAfter_token (hkind : token.kind.isTrivia = false) :
    pendingAfter pending (token :: tokens) = pendingAfter none tokens := by
  rw [pendingAfter]
  split
  · simp_all [TokenKind.isTrivia]
  · simp_all [TokenKind.isTrivia]
  · rfl

end

theorem trivia_cases (kind : TokenKind) :
    kind = .whitespace ∨ kind = .comment ∨ kind.isTrivia = false := by
  cases kind <;> simp [TokenKind.isTrivia]

theorem significant_append (pending : Option Span) (first second : List Token) :
    significant pending (first ++ second) =
      significant pending first ++ significant (pendingAfter pending first) second := by
  induction first generalizing pending with
  | nil => rfl
  | cons token tokens ih =>
      rw [List.cons_append]
      rcases trivia_cases token.kind with hkind | hkind | hkind
      · rw [significant_whitespace hkind, significant_whitespace hkind,
          pendingAfter_whitespace hkind, ih]
      · rw [significant_comment hkind, significant_comment hkind, pendingAfter_comment hkind, ih]
      · rw [significant_token hkind, significant_token hkind, pendingAfter_token hkind, ih,
          List.cons_append]

theorem pendingAfter_append (pending : Option Span) (first second : List Token) :
    pendingAfter pending (first ++ second) = pendingAfter (pendingAfter pending first) second := by
  induction first generalizing pending with
  | nil => rfl
  | cons token tokens ih =>
      rw [List.cons_append]
      rcases trivia_cases token.kind with hkind | hkind | hkind
      · rw [pendingAfter_whitespace hkind, pendingAfter_whitespace hkind, ih]
      · rw [pendingAfter_comment hkind, pendingAfter_comment hkind, ih]
      · rw [pendingAfter_token hkind, pendingAfter_token hkind, ih]

theorem significant_endOfFile (pending : Option Span) (p : Position) :
    significant pending [Token.endOfFile p] = [⟨Token.endOfFile p, pending⟩] := rfl

end Slot

theorem Token.Run.kind_ne {p q : Position} {tokens : List Token} (h : Token.Run p tokens q) :
    ∀ token ∈ tokens, token.kind ≠ .endOfFile := by
  induction tokens generalizing p with
  | nil => exact nofun
  | cons token tokens ih =>
      obtain ⟨-, -, -, hkind, hrest⟩ := h
      exact List.forall_mem_cons.mpr ⟨hkind, ih hrest⟩

theorem Token.Run.width {p q : Position} {token : Token} {tokens : List Token}
    (h : Token.Run p (token :: tokens) q) : p.offset < token.span.stop.offset := by
  obtain ⟨-, hstop, htext, -, -⟩ := h
  rw [hstop, Text.advancedBy_offset]
  cases hchars : token.text.toList with
  | nil => exact absurd hchars htext
  | cons c chars =>
      have := c.utf8Size_pos
      rw [Text.byteLength_cons]
      omega

theorem Token.Run.start_mem {p q : Position} {tokens : List Token} (h : Token.Run p tokens q) :
    p.offset ≤ q.offset ∧ ∀ token ∈ tokens,
      p.offset ≤ token.span.start.offset ∧ token.span.start.offset < q.offset := by
  induction tokens generalizing p with
  | nil =>
      cases h
      exact ⟨Nat.le_refl _, nofun⟩
  | cons token tokens ih =>
      have hwidth := h.width
      obtain ⟨hstart, -, -, -, hrest⟩ := h
      obtain ⟨hle, hmem⟩ := ih hrest
      refine ⟨by omega, List.forall_mem_cons.mpr ⟨by rw [hstart]; omega, ?_⟩⟩
      intro later hlater
      have := hmem later hlater
      omega

theorem Token.Run.before {p q : Position} {first rest : List Token} {token : Token}
    (h : Token.Run p (first ++ token :: rest) q) : Token.Run p first token.span.start := by
  induction first generalizing p with
  | nil => exact h.1
  | cons earlier first ih =>
      obtain ⟨hstart, hstop, htext, hkind, hrest⟩ := h
      exact ⟨hstart, hstop, htext, hkind, ih hrest⟩

theorem Slot.start_significant {holds : Position → Prop} {pending : Option Span} {tokens : List Token}
    (hpending : ∀ span ∈ pending, holds span.start) (htokens : ∀ token ∈ tokens, holds token.span.start) :
    ∀ slot ∈ Slot.significant pending tokens,
      holds slot.token.span.start ∧ ∀ span ∈ slot.commentBefore, holds span.start := by
  induction tokens generalizing pending with
  | nil => exact nofun
  | cons token tokens ih =>
      obtain ⟨htoken, hlater⟩ := List.forall_mem_cons.mp htokens
      rcases Slot.trivia_cases token.kind with hkind | hkind | hkind
      · rw [Slot.significant_whitespace hkind]
        exact ih hpending hlater
      · rw [Slot.significant_comment hkind]
        refine ih ?_ hlater
        rintro span ⟨⟩
        exact htoken
      · rw [Slot.significant_token hkind]
        exact List.forall_mem_cons.mpr ⟨⟨htoken, hpending⟩, ih nofun hlater⟩

theorem Slot.exists_of_significant {pending : Option Span} {tokens : List Token}
    {passed slots : List Slot} {slot : Slot}
    (h : Slot.significant pending tokens = passed ++ slot :: slots) :
    ∃ first rest, tokens = first ++ slot.token :: rest ∧ Slot.significant pending first = passed ∧
      Slot.pendingAfter pending first = slot.commentBefore ∧ slot.kind.isTrivia = false ∧
      Slot.significant none rest = slots := by
  induction tokens generalizing pending passed with
  | nil => simp [Slot.significant, Slot.collect] at h
  | cons token tokens ih =>
      rcases Slot.trivia_cases token.kind with hkind | hkind | hkind
      · rw [Slot.significant_whitespace hkind] at h
        obtain ⟨first, rest, rfl, hfirst, hpending, htrivia, hrest⟩ := ih h
        refine ⟨token :: first, rest, rfl, ?_, ?_, htrivia, hrest⟩
        · rw [Slot.significant_whitespace hkind, hfirst]
        · rw [Slot.pendingAfter_whitespace hkind, hpending]
      · rw [Slot.significant_comment hkind] at h
        obtain ⟨first, rest, rfl, hfirst, hpending, htrivia, hrest⟩ := ih h
        refine ⟨token :: first, rest, rfl, ?_, ?_, htrivia, hrest⟩
        · rw [Slot.significant_comment hkind, hfirst]
        · rw [Slot.pendingAfter_comment hkind, hpending]
      · rw [Slot.significant_token hkind] at h
        cases passed with
        | nil =>
            obtain ⟨rfl, hrest⟩ := List.cons.inj h
            exact ⟨[], tokens, rfl, rfl, rfl, hkind, hrest⟩
        | cons earlier passed =>
            obtain ⟨rfl, hlater⟩ := List.cons.inj h
            obtain ⟨first, rest, rfl, hfirst, hpending, htrivia, hrest⟩ := ih hlater
            refine ⟨token :: first, rest, rfl, ?_, ?_, htrivia, hrest⟩
            · rw [Slot.significant_token hkind, hfirst]
            · rw [Slot.pendingAfter_token hkind, hpending]

theorem Slot.map_token_significant (pending : Option Span) (tokens : List Token) :
    (Slot.significant pending tokens).map (·.token) = tokens.filter (!·.kind.isTrivia) := by
  induction tokens generalizing pending with
  | nil => rfl
  | cons token tokens ih =>
      rcases Slot.trivia_cases token.kind with htrivia | htrivia | htrivia
      · rw [Slot.significant_whitespace htrivia, ih]
        simp [htrivia, TokenKind.isTrivia]
      · rw [Slot.significant_comment htrivia, ih]
        simp [htrivia, TokenKind.isTrivia]
      · rw [Slot.significant_token htrivia, List.map_cons, ih]
        simp [htrivia]

theorem Slot.token_mem {pending : Option Span} {tokens : List Token} {slot : Slot}
    (hslot : slot ∈ Slot.significant pending tokens) : slot.token ∈ tokens := by
  have hkept : slot.token ∈ (Slot.significant pending tokens).map (·.token) := List.mem_map_of_mem hslot
  rw [Slot.map_token_significant] at hkept
  exact (List.mem_filter.mp hkept).1

theorem State.ofTokens_append (options : Options) (start p : Position) (tokens : List Token) :
    State.ofTokens options start (tokens ++ [Token.endOfFile p]) =
      { rest := Slot.significant none tokens, endOfFile := p,
        commentAtEnd := Slot.pendingAfter none tokens, start, consumed := 0, previousEnd := start,
        delimiters := [], depth := 0, deepest := 0, reports := [], journal := [], options } := by
  have hslots : Slot.ofTokens (tokens ++ [Token.endOfFile p]) =
      Slot.significant none tokens ++ [⟨Token.endOfFile p, Slot.pendingAfter none tokens⟩] := by
    rw [Slot.ofTokens, ← Slot.significant, Slot.significant_append, Slot.significant_endOfFile]
  have hkind : (⟨Token.endOfFile p, Slot.pendingAfter none tokens⟩ : Slot).kind = .endOfFile := rfl
  unfold State.ofTokens
  simp only [hslots, List.getLast?_concat, List.dropLast_concat, if_pos hkind]
  rfl

theorem State.ofTokens_lexemes (options : Options) (start : Position) (text : List Char) :
    State.ofTokens options start (Scan.tokens start text) =
      { rest := Slot.significant none (Scan.lexemes start text), endOfFile := start.advancedBy text,
        commentAtEnd := Slot.pendingAfter none (Scan.lexemes start text), start, consumed := 0,
        previousEnd := start, delimiters := [], depth := 0, deepest := 0, reports := [],
        journal := [], options } := by
  rw [Scan.tokens_eq, State.ofTokens_append]

theorem State.slots_ofTokens (options : Options) (start : Position) (text : List Char) :
    (State.ofTokens options start (Scan.tokens start text)).slots =
      Slot.significant none (Scan.tokens start text) := by
  rw [State.ofTokens_lexemes, State.slots, Scan.tokens_eq, Slot.significant_append,
    Slot.significant_endOfFile]

end ScriptSyntax
