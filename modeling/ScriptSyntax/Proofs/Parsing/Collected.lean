import ScriptSyntax.Proofs.Token.Stream

/-!
The slots that a parse begins with.  However many tokens a stream has given before, the slots are the tokens that
it has left, without the trivia and with the end of the file behind them, and every comment that is left is with
the newline or the end of the file that ends its line: `State.collects_skipped`.
-/

namespace ScriptSyntax

/-- What stands behind a comment ends its line. -/
def Token.CommentsEndLines (tokens : List Token) : Prop :=
  tokens.IsChain fun a b => a.kind = .comment → b.kind = .newline ∨ b.kind = .endOfFile

/-- The slots hold the tokens of a sequence that begins at `start` and what stands between them. -/
structure Slot.Collects (start : Position) (tokens : List Token) (slots : List Slot) : Prop where
  /-- Every token that is no trivia is kept, in order.  Where no token is left, there is an end of the file. -/
  tokens_eq : slots.map (·.token) =
    if tokens = [] then [Token.endOfFile start] else tokens.filter (!·.kind.isTrivia)
  /-- The last token, and no other, is the end of the file. -/
  ends : ∃ earlier last, slots = earlier ++ [last] ∧ last.kind = .endOfFile ∧
    ∀ slot ∈ earlier, slot.kind ≠ .endOfFile
  /-- There is a place for a comment before each of the tokens. -/
  length_eq : (slots.map (·.commentBefore)).length = (slots.map (·.token)).length
  /-- A comment is before the newline or the end of the file directly behind it, and before no other token. -/
  claimed : ∀ before comment behind, tokens = before ++ comment :: behind → comment.kind = .comment →
    ∃ next later, behind = next :: later ∧ (next.kind = .newline ∨ next.kind = .endOfFile) ∧
      slots.filter (·.commentBefore = some comment.span) = [⟨next, some comment.span⟩]
  /-- Where a comment is met, no earlier one is still without a token. -/
  free : ∀ before comment behind, tokens = before ++ comment :: behind → comment.kind = .comment →
    pendingAfter none before = none
  /-- The comments before the tokens are those of the sequence, in order. -/
  comments_eq : slots.filterMap (·.commentBefore) = (tokens.filter (·.kind = .comment)).map (·.span)

/-! ### Comments and the tokens behind them -/

theorem Scan.commentsEndLines (p : Position) (text : List Char) :
    Token.CommentsEndLines (tokens p text) := by
  rw [Token.CommentsEndLines, tokens_eq, List.isChain_append]
  refine ⟨(isChain_lexemes p text).imp fun _ _ hnewline hkind => .inl (hnewline hkind), .singleton _, ?_⟩
  rintro a - b ⟨⟩ -
  exact .inr rfl

theorem Scan.pairwise_start (p : Position) (text : List Char) :
    (tokens p text).Pairwise fun a b => a.span.start.offset < b.span.start.offset := by
  induction p, text using induct with
  | nil p => exact List.pairwise_singleton _ _
  | cons p c rest ih =>
      have hrun := run_lexemes p (c :: rest)
      rw [lexemes_cons] at hrun
      have hwidth := hrun.width
      obtain ⟨-, -, -, -, hrest⟩ := hrun
      rw [tokens_cons]
      refine List.pairwise_cons.mpr ⟨fun token htoken => ?_, ih⟩
      show p.offset < token.span.start.offset
      rw [tokens_eq, List.mem_append, List.mem_singleton] at htoken
      rcases htoken with hlexeme | rfl
      · have hplace := hrest.start_mem.2 token hlexeme
        omega
      · show p.offset < (Position.advancedBy _ _).offset
        exact Nat.lt_of_lt_of_le hwidth (Position.offset_le_advancedBy _ _)

namespace Slot

theorem pendingAfter_eq_none {before behind : List Token} {token : Token}
    (hlines : Token.CommentsEndLines (before ++ token :: behind))
    (hkind : ¬(token.kind = .newline ∨ token.kind = .endOfFile)) : pendingAfter none before = none := by
  induction before using List.reverseRecOn generalizing token behind with
  | nil => rfl
  | append_singleton before last ih =>
      rw [List.append_assoc, List.singleton_append] at hlines
      rw [pendingAfter_append]
      rcases trivia_cases last.kind with hlast | hlast | hlast
      · rw [pendingAfter_whitespace hlast]
        exact ih hlines (by rw [hlast]; exact nofun)
      · have hnext := (List.isChain_append.mp hlines).2.1
        exact absurd ((List.isChain_cons_cons.mp hnext).1 hlast) hkind
      · rw [pendingAfter_token hlast]
        rfl

/-- No comment is lost: what the slots do not have, the next token will. -/
theorem filterMap_commentBefore {pending : Option Span} {tokens : List Token}
    (hlines : Token.CommentsEndLines tokens)
    (hpending : pending ≠ none → ∀ token ∈ tokens.head?, token.kind = .newline ∨ token.kind = .endOfFile) :
    (significant pending tokens).filterMap (·.commentBefore) ++ (pendingAfter pending tokens).toList =
      pending.toList ++ (tokens.filter (·.kind = .comment)).map (·.span) := by
  induction tokens generalizing pending with
  | nil => exact (List.append_nil _).symm
  | cons token tokens ih =>
      obtain ⟨hfirst, hlater⟩ := List.isChain_cons.mp hlines
      have hnone : ¬(token.kind = .newline ∨ token.kind = .endOfFile) → pending = none := by
        intro hkind
        by_contra hsome
        exact hkind (hpending hsome token rfl)
      rcases trivia_cases token.kind with hkind | hkind | hkind
      · rw [significant_whitespace hkind, pendingAfter_whitespace hkind,
          ih hlater fun hsome => absurd (hnone (by rw [hkind]; exact nofun)) hsome]
        simp [hkind]
      · rw [significant_comment hkind, pendingAfter_comment hkind,
          ih hlater fun _ next hnext => hfirst next hnext hkind, hnone (by rw [hkind]; exact nofun)]
        simp [hkind]
      · have hcomment : token.kind ≠ .comment := by
          intro hcomment
          rw [hcomment] at hkind
          cases hkind
        rw [significant_token hkind, pendingAfter_token hkind, List.filterMap_cons]
        have hrest := ih hlater (absurd rfl)
        cases pending with
        | none => simpa [hcomment] using hrest
        | some span => simpa [hcomment] using hrest

theorem filter_commentBefore {before behind : List Token} {comment next : Token}
    (hstart : (before ++ comment :: next :: behind).Pairwise
      fun a b => a.span.start.offset < b.span.start.offset)
    (hcomment : comment.kind = .comment) (hnext : next.kind.isTrivia = false) :
    (significant none (before ++ comment :: next :: behind)).filter
      (·.commentBefore = some comment.span) = [⟨next, some comment.span⟩] := by
  obtain ⟨-, hbehind, hacross⟩ := List.pairwise_append.mp hstart
  have hearlier : ∀ slot ∈ significant none before, slot.commentBefore ≠ some comment.span := by
    intro slot hslot hsome
    have hplace := @start_significant (·.offset < comment.span.start.offset) none before
      nofun (fun token htoken => hacross token htoken comment List.mem_cons_self)
    exact Nat.lt_irrefl _ ((hplace slot hslot).2 _ hsome)
  have hlater : ∀ slot ∈ significant none behind, slot.commentBefore ≠ some comment.span := by
    intro slot hslot hsome
    have hfirst := (List.pairwise_cons.mp hbehind).1
    have hplace := @start_significant (comment.span.start.offset < ·.offset) none behind
      nofun (fun token htoken => hfirst token (List.mem_cons_of_mem _ htoken))
    exact Nat.lt_irrefl _ ((hplace slot hslot).2 _ hsome)
  rw [significant_append, significant_comment hcomment, significant_token hnext, List.filter_append,
    List.filter_eq_nil_iff.mpr (by simpa using hearlier), List.filter_cons_of_pos (by simp),
    List.filter_eq_nil_iff.mpr (by simpa using hlater), List.nil_append]

end Slot

/-! ### What a parse begins with -/

namespace Slot

theorem exists_claimed {p : Position} {text : List Char} {before behind : List Token} {comment : Token}
    (htokens : Scan.tokens p text = before ++ comment :: behind) (hkind : comment.kind = .comment) :
    ∃ next later, behind = next :: later ∧ (next.kind = .newline ∨ next.kind = .endOfFile) ∧
      (significant none (Scan.tokens p text)).filter (·.commentBefore = some comment.span) =
        [⟨next, some comment.span⟩] := by
  have hlines := Scan.commentsEndLines p text
  have hstart := Scan.pairwise_start p text
  cases behind with
  | nil =>
      -- the last token is the end of the file
      have hlast := congrArg List.getLast? htokens
      rw [Scan.tokens_eq, List.getLast?_concat, List.getLast?_concat] at hlast
      obtain rfl := Option.some.inj hlast
      cases hkind
  | cons next later =>
      rw [htokens] at hlines hstart ⊢
      have hpair := (List.isChain_append.mp hlines).2.1
      have hnext := (List.isChain_cons_cons.mp hpair).1 hkind
      have htrivia : next.kind.isTrivia = false := by
        rcases hnext with hnext | hnext
        · rw [hnext]
          rfl
        · rw [hnext]
          rfl
      exact ⟨next, later, rfl, hnext, filter_commentBefore hstart hkind htrivia⟩

theorem collects_tokens (p : Position) (text : List Char) :
    Collects p (Scan.tokens p text) (significant none (Scan.tokens p text)) where
  tokens_eq := by rw [if_neg (Scan.tokens_ne_nil p text), map_token_significant]
  ends := by
    have hslots : significant none (Scan.tokens p text) = significant none (Scan.lexemes p text) ++
        [⟨Token.endOfFile (p.advancedBy text), pendingAfter none (Scan.lexemes p text)⟩] := by
      rw [Scan.tokens_eq, significant_append, significant_endOfFile]
    refine ⟨_, _, hslots, rfl, fun slot hslot => ?_⟩
    exact (Scan.run_lexemes p text).kind_ne _ (token_mem hslot)
  length_eq := by rw [List.length_map, List.length_map]
  claimed := fun _ _ _ htokens hkind => exists_claimed htokens hkind
  free := by
    intro before comment behind htokens hkind
    have hlines := Scan.commentsEndLines p text
    rw [htokens] at hlines
    exact pendingAfter_eq_none hlines (by rw [hkind]; exact nofun)
  comments_eq := by
    have hpending : pendingAfter none (Scan.tokens p text) = none := by
      rw [Scan.tokens_eq, pendingAfter_append]
      rfl
    have hcomments := filterMap_commentBefore (Scan.commentsEndLines p text) (absurd rfl)
    rw [hpending] at hcomments
    simpa using hcomments

theorem collects_nil (options : Options) (start : Position) :
    Collects start [] (State.ofTokens options start []).slots where
  tokens_eq := rfl
  ends := ⟨[], _, rfl, rfl, nofun⟩
  length_eq := rfl
  claimed := by simp
  free := by simp
  comments_eq := rfl

end Slot

/-- Whatever number of tokens a stream has given before, a parse of the tokens left begins with all of them but
the trivia, in order and with one end of the file, and has every comment at the token behind it. -/
theorem State.collects_skipped {source : String} {p : Position} {before rest : List Char}
    (hsource : source.toList = before ++ rest) (hplace : Text.byteLength before = p.offset)
    (hfits : ∀ piece, piece <+: rest → (p.advancedBy piece).Fits) (count : Nat) (options : Options) :
    ∃ stream last, (TokenStream.startingAt source p).skip count = .ok stream ∧
      stream.drain = .ok ((Scan.tokens p rest).drop count, last) ∧
        Slot.Collects stream.position ((Scan.tokens p rest).drop count)
          (State.ofTokens options stream.position ((Scan.tokens p rest).drop count)).slots := by
  rw [TokenStream.startingAt_eq hsource hplace]
  obtain ⟨passed, behind, rfl, hskip, htokens⟩ | ⟨stream, hskip, hfinished, htokens⟩ :=
    TokenStream.skip_cases hfits count
  · have hbehind : ∀ piece, piece <+: behind → ((p.advancedBy passed).advancedBy piece).Fits := by
      intro piece hpiece
      rw [← Position.advancedBy_append]
      exact hfits _ ((List.prefix_append_right_inj _).mpr hpiece)
    obtain ⟨last, hdrain⟩ := TokenStream.exists_drain hbehind
    rw [htokens]
    refine ⟨_, last, hskip, hdrain, ?_⟩
    rw [State.slots_ofTokens]
    exact Slot.collects_tokens _ behind
  · rw [htokens]
    refine ⟨stream, stream, hskip, ?_, Slot.collects_nil options stream.position⟩
    rw [TokenStream.drain, if_pos hfinished]

theorem State.collects_skipped_behind_wide_character :
    ∃ stream last, (TokenStream.startingAt "é x // ü\n// y" ⟨2, 40, 7⟩).skip 1 = .ok stream ∧
      stream.drain = .ok ((Scan.tokens ⟨2, 40, 7⟩ " x // ü\n// y".toList).drop 1, last) ∧
        Slot.Collects stream.position ((Scan.tokens ⟨2, 40, 7⟩ " x // ü\n// y".toList).drop 1)
          (State.ofTokens {} stream.position
            ((Scan.tokens ⟨2, 40, 7⟩ " x // ü\n// y".toList).drop 1)).slots := by
  have hfits : ∀ piece ∈ [' ', 'x', ' ', '/', '/', ' ', 'ü', '\n', '/', '/', ' ', 'y'].inits,
      ((⟨2, 40, 7⟩ : Position).advancedBy piece).Fits := by decide
  have hsource : "é x // ü\n// y".toList = ['é'] ++ " x // ü\n// y".toList := rfl
  exact collects_skipped hsource rfl
    (fun piece hpiece => hfits piece ((List.mem_inits piece _).mpr hpiece)) 1 {}

end ScriptSyntax
