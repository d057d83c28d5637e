import Mathlib.Data.List.Infix
import ScriptSyntax.Proofs.Token.Lines
import ScriptSyntax.Proofs.Token.Stored

/-!
Streams read to their end.  From any place between two characters a stream gives the rest of the text, token
by token, then the end of the file once, and nothing after it: `TokenStream.gives_rest`.  The tokens of a text
are those of its lines, each line taken alone: `TokenStream.drain_joined`.
-/

namespace ScriptSyntax

namespace TokenStream

/-- The stream gives the tokens one by one and is `last` after them. -/
inductive Gives : TokenStream → List Token → TokenStream → Prop where
  | nil (s : TokenStream) : Gives s [] s
  | cons {s s' last : TokenStream} {token : Token} {tokens : List Token}
      (hnext : s.next = .ok (some token, s')) (hrest : Gives s' tokens last) :
      Gives s (token :: tokens) last

theorem startingAt_eq {source : String} {p : Position} {before rest : List Char}
    (hsource : source.toList = before ++ rest) (hplace : Text.byteLength before = p.offset) :
    startingAt source p = ⟨.text rest, p, false⟩ := by
  have hsplit : Text.splitAtByte? source.toList p.offset = .ok (before, rest) :=
    Text.splitAtByte?_eq_ok_iff.mpr ⟨hsource, hplace⟩
  simp only [startingAt, hsplit]

theorem next_cons {p : Position} {c : Char} {rest : List Char}
    (hfits : (Scan.first p c rest).1.span.stop.Fits) :
    next ⟨.text (c :: rest), p, false⟩ =
      .ok (some (Scan.first p c rest).1,
        ⟨.text (rest.drop (Scan.first p c rest).2), (Scan.first p c rest).1.span.stop, false⟩) := by
  simp only [next, Bool.false_eq_true, if_false, if_pos hfits]

theorem fits_first {p : Position} {c : Char} {rest : List Char}
    (hfits : ∀ piece, piece <+: c :: rest → (p.advancedBy piece).Fits) :
    (Scan.first p c rest).1.span.stop.Fits ∧ ∀ piece, piece <+: rest.drop (Scan.first p c rest).2 →
      ((Scan.first p c rest).1.span.stop.advancedBy piece).Fits := by
  have hstop : (Scan.first p c rest).1.span.stop =
      p.advancedBy (c :: rest.take (Scan.first p c rest).2) := rfl
  have hsplit : c :: rest = c :: rest.take (Scan.first p c rest).2 ++
      rest.drop (Scan.first p c rest).2 := by
    rw [List.cons_append, List.take_append_drop]
  constructor
  · rw [hstop]
    exact hfits _ (hsplit ▸ List.prefix_append _ _)
  · intro piece hpiece
    rw [hstop, ← Position.advancedBy_append]
    apply hfits
    rw [hsplit]
    exact (List.prefix_append_right_inj _).mpr hpiece

theorem gives_tokens {p : Position} {rest : List Char}
    (hfits : ∀ piece, piece <+: rest → (p.advancedBy piece).Fits) :
    Gives ⟨.text rest, p, false⟩ (Scan.tokens p rest) ⟨.text [], p.advancedBy rest, true⟩ := by
  induction p, rest using Scan.induct with
  | nil p => exact .cons rfl (.nil _)
  | cons p c rest ih =>
      obtain ⟨hfirst, hrest⟩ := fits_first hfits
      rw [Scan.tokens_cons, ← Scan.advancedBy_first]
      exact .cons (next_cons hfirst) (ih hrest)

theorem skip_finished {s : TokenStream} (h : s.finished = true) (count : Nat) : s.skip count = .ok s := by
  have hnext : s.next = .ok (none, s) := by rw [next, if_pos h]
  induction count with
  | zero => rfl
  | succ count ih =>
      rw [skip, hnext]
      exact ih

theorem skip_cases {p : Position} {rest : List Char}
    (hfits : ∀ piece, piece <+: rest → (p.advancedBy piece).Fits) (count : Nat) :
    (∃ passed behind, rest = passed ++ behind ∧
      skip ⟨.text rest, p, false⟩ count = .ok ⟨.text behind, p.advancedBy passed, false⟩ ∧
      (Scan.tokens p rest).drop count = Scan.tokens (p.advancedBy passed) behind) ∨
    ∃ stream, skip ⟨.text rest, p, false⟩ count = .ok stream ∧ stream.finished = true ∧
      (Scan.tokens p rest).drop count = [] := by
  induction count generalizing p rest with
  | zero => exact .inl ⟨[], rest, rfl, rfl, rfl⟩
  | succ count ih =>
      cases rest with
      | nil =>
          -- the end of the file is the only token left
          refine .inr ⟨⟨.text [], p, true⟩, skip_finished rfl count, rfl, ?_⟩
          rw [Scan.tokens_nil, List.drop_succ_cons, List.drop_nil]
      | cons c rest =>
          obtain ⟨hfirst, hrest⟩ := fits_first hfits
          have hskip : skip ⟨.text (c :: rest), p, false⟩ (count + 1) =
              skip ⟨.text (rest.drop (Scan.first p c rest).2), (Scan.first p c rest).1.span.stop, false⟩
                count := by
            rw [skip, next_cons hfirst]
            rfl
          rw [Scan.tokens_cons, List.drop_succ_cons, hskip]
          obtain ⟨passed, behind, hsplit, hstream, htokens⟩ | hfinished := ih hrest
          · have hplace : (Scan.first p c rest).1.span.stop.advancedBy passed =
                p.advancedBy (c :: rest.take (Scan.first p c rest).2 ++ passed) := by
              rw [Position.advancedBy_append]
              rfl
            rw [hplace] at hstream htokens
            refine .inl ⟨_, behind, ?_, hstream, htokens⟩
            rw [List.append_assoc, ← hsplit, List.cons_append, List.take_append_drop]
          · exact .inr hfinished

/-- A stream that starts between two characters of a text gives tokens that lie one behind the other and are
the rest of the text, then the end of the file, and then nothing.  No line or column on the way may be more
than a position can store. -/
theorem gives_rest {source : String} {p : Position} {before rest : List Char}
    (hsize : source.utf8ByteSize < Position.limit) (hsource : source.toList = before ++ rest)
    (hplace : Text.byteLength before = p.offset)
    (hcounts : ∀ piece, piece <+: rest →
      (p.advancedBy piece).line ≤ Position.limit ∧ (p.advancedBy piece).column ≤ Position.limit) :
    ∃ tokens q stream, (startingAt source p).Gives (tokens ++ [Token.endOfFile q]) stream ∧
      stream.next = .ok (none, stream) ∧ Token.Run p tokens q ∧
        tokens.flatMap (·.text.toList) = rest := by
  have hfits : ∀ piece, piece <+: rest → (p.advancedBy piece).Fits := by
    rintro piece ⟨behind, rfl⟩
    refine ⟨?_, hcounts piece (List.prefix_append piece behind)⟩
    rw [← Text.byteLength_toList, hsource, Text.byteLength_append, Text.byteLength_append] at hsize
    rw [Text.advancedBy_offset]
    omega
  refine ⟨Scan.lexemes p rest, p.advancedBy rest, ⟨.text [], p.advancedBy rest, true⟩, ?_, rfl,
    Scan.run_lexemes p rest, Scan.flatMap_lexemes p rest⟩
  rw [startingAt_eq hsource hplace, ← Scan.tokens_eq]
  exact gives_tokens hfits

theorem gives_rest_behind_wide_character :
    ∃ tokens q stream,
      (startingAt "é 'ü\\\n// ñ" ⟨2, 40, 7⟩).Gives (tokens ++ [Token.endOfFile q]) stream ∧
        stream.next = .ok (none, stream) ∧ Token.Run ⟨2, 40, 7⟩ tokens q ∧
          tokens.flatMap (·.text.toList) = " 'ü\\\n// ñ".toList := by
  have hcounts : ∀ piece ∈ [' ', '\'', 'ü', '\\', '\n', '/', '/', ' ', 'ñ'].inits,
      ((⟨2, 40, 7⟩ : Position).advancedBy piece).line ≤ Position.limit ∧
        ((⟨2, 40, 7⟩ : Position).advancedBy piece).column ≤ Position.limit := by decide
  have hsource : "é 'ü\\\n// ñ".toList = ['é'] ++ " 'ü\\\n// ñ".toList := rfl
  exact gives_rest (by decide) hsource rfl fun piece hpiece =>
    hcounts piece ((List.mem_inits piece _).mpr hpiece)

theorem tokenize_joined (s t : String) :
    tokenize (s ++ "\n" ++ t) = (tokenize s).dropLast ++
      ⟨.newline, "\n", ⟨Position.origin.advancedBy s.toList, Position.origin.shiftedBy (s ++ "\n")⟩⟩ ::
        (tokenize t).map (·.mapPositions (·.shiftedBy (s ++ "\n"))) := by
  have hlines : (s ++ "\n").toList = s.toList ++ ['\n'] := String.toList_append
  have hstop : (Position.origin.advancedBy s.toList).next '\n' =
      Position.origin.shiftedBy (s ++ "\n") := by
    rw [Position.origin_shiftedBy hlines, hlines, Position.advancedBy_append]
    rfl
  have htext : (s ++ "\n" ++ t).toList = s.toList ++ '\n' :: t.toList := by
    rw [String.toList_append, hlines, List.append_assoc]
    rfl
  have hlast : Token.endOfFile ((Position.origin.shiftedBy (s ++ "\n")).advancedBy t.toList) =
      (Token.endOfFile (Position.origin.advancedBy t.toList)).mapPositions
        (·.shiftedBy (s ++ "\n")) := by
    rw [Position.advancedBy_shiftedBy]
    rfl
  calc tokenize (s ++ "\n" ++ t)
      = Scan.lexemes Position.origin (s.toList ++ '\n' :: t.toList) ++
          [Token.endOfFile (Position.origin.advancedBy (s.toList ++ '\n' :: t.toList))] := by
        rw [tokenize, Scan.tokens_eq, htext]
    _ = Scan.lexemes Position.origin s.toList ++
          ⟨.newline, "\n", ⟨Position.origin.advancedBy s.toList,
            Position.origin.shiftedBy (s ++ "\n")⟩⟩ ::
            Scan.tokens (Position.origin.shiftedBy (s ++ "\n")) t.toList := by
        rw [Scan.lexemes_line, Scan.lexemes_newline, hstop, Scan.tokens_eq, Position.advancedBy_append,
          Position.advancedBy_cons, hstop, List.append_assoc, List.cons_append]
    _ = _ := by
        rw [Scan.tokens_eq, Scan.lexemes_shiftedBy, hlast, tokenize, tokenize,
          Scan.tokens_eq Position.origin t.toList, List.map_append]
        rfl

/-- Two texts joined by a line break have the tokens of the one, the newline and the tokens of the other, moved
behind the break; and a line break is in no other token than a newline, which is nothing else. -/
theorem drain_joined {s t : String} (hsize : (s ++ "\n" ++ t).utf8ByteSize < Position.limit) :
    (∃ stream, (ofSource (s ++ "\n" ++ t)).drain = .ok ((tokenize s).dropLast ++
      ⟨.newline, "\n", ⟨Position.origin.advancedBy s.toList, Position.origin.shiftedBy (s ++ "\n")⟩⟩ ::
        (tokenize t).map (·.mapPositions (·.shiftedBy (s ++ "\n"))), stream)) ∧
      ∀ token ∈ tokenize (s ++ "\n" ++ t), (token.kind = .newline ↔ '\n' ∈ token.text.toList) ∧
        (token.kind = .newline → token.text = "\n") := by
  refine ⟨?_, fun token htoken => ?_⟩
  · rw [← tokenize_joined]
    exact drain_ofSource hsize
  · rw [tokenize, Scan.tokens_eq, List.mem_append, List.mem_singleton] at htoken
    rcases htoken with hlexeme | rfl
    · exact Scan.kind_eq_newline_iff _ _ token hlexeme
    · exact ⟨⟨nofun, nofun⟩, nofun⟩

/-- The first line ends in a string that is not closed, behind a backslash. -/
theorem drain_joined_behind_backslash :
    (∃ stream, (ofSource ("x = 'é\\" ++ "\n" ++ "y'")).drain = .ok ((tokenize "x = 'é\\").dropLast ++
      ⟨.newline, "\n", ⟨Position.origin.advancedBy "x = 'é\\".toList,
        Position.origin.shiftedBy ("x = 'é\\" ++ "\n")⟩⟩ ::
        (tokenize "y'").map (·.mapPositions (·.shiftedBy ("x = 'é\\" ++ "\n"))), stream)) ∧
      ∀ token ∈ tokenize ("x = 'é\\" ++ "\n" ++ "y'"),
        (token.kind = .newline ↔ '\n' ∈ token.text.toList) ∧
          (token.kind = .newline → token.text = "\n") :=
  drain_joined (by decide)

end TokenStream

end ScriptSyntax
