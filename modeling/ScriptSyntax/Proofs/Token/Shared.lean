import ScriptSyntax.Proofs.Token.Prefix
import ScriptSyntax.Proofs.Token.Stored

/-!
Sources that share their first bytes.  Two bytes behind a token are all that its reading depends on,
`Scan.ahead_of_offset`, so the tokens of one source that end two bytes before the first difference begin the
tokens of the other, `Scan.filter_lexemes_prefix` and `TokenStream.drain_shared`.
-/

namespace ScriptSyntax

theorem Token.Run.lt_stop {p q : Position} {tokens : List Token} (h : Token.Run p tokens q) :
    ∀ token ∈ tokens, p.offset < token.span.stop.offset := by
  induction tokens generalizing p with
  | nil => exact nofun
  | cons token tokens ih =>
      have hwidth := h.width
      obtain ⟨-, -, -, -, hrest⟩ := h
      refine List.forall_mem_cons.mpr ⟨hwidth, fun later hlater => ?_⟩
      exact Nat.lt_trans hwidth (ih hrest later hlater)

namespace Scan

theorem ahead_of_offset {p : Position} {c : Char} {known x : List Char}
    (h : (first p c (known ++ x)).1.span.stop.offset + 2 ≤ (p.advancedBy (c :: known)).offset) :
    Ahead known (classify c (known ++ x)).2 := by
  have hnext : (classify c (known ++ x)).2 < known.length :=
    extra_lt_length (Nat.lt_of_lt_of_le (Nat.lt_add_of_pos_right Nat.two_pos) h)
  refine ⟨hnext, fun d hd hlong => ?_⟩
  by_contra hlast
  have hlength : known.length = (classify c (known ++ x)).2 + 1 := by omega
  have hknown : known = known.take (classify c (known ++ x)).2 ++ [d] := by
    conv_lhs => rw [← List.take_length (l := known), hlength, List.take_add_one, hd]
    rfl
  have hwidth : d.utf8Size = 1 := by
    rcases hlong with rfl | rfl
    · rfl
    · rfl
  have hbytes := congrArg Text.byteLength hknown
  rw [Text.byteLength_append, Text.byteLength_cons, Text.byteLength_nil, hwidth] at hbytes
  simp only [first, Text.advancedBy_offset, Text.byteLength_cons,
    List.take_append_of_le_length (Nat.le_of_lt hnext)] at h
  omega

theorem filter_lexemes_prefix (p : Position) {text same x : List Char} (htext : text = same ++ x)
    (y : List Char) :
    (lexemes p text).filter (fun token => token.span.stop.offset + 2 ≤ (p.advancedBy same).offset) <+:
      lexemes p (same ++ y) := by
  induction p, text using induct generalizing same with
  | nil p => exact List.nil_prefix
  | cons p c rest ih =>
      have hrun := run_lexemes p (c :: rest)
      rw [lexemes_cons] at hrun ⊢
      by_cases hstop : (first p c rest).1.span.stop.offset + 2 ≤ (p.advancedBy same).offset
      · cases same with
        | nil =>
            have hwidth := hrun.width
            rw [Position.advancedBy_nil] at hstop
            omega
        | cons d known =>
            rw [List.cons_append, List.cons.injEq] at htext
            obtain ⟨rfl, rfl⟩ := htext
            have hahead := ahead_of_offset hstop
            have hplace : (first p c (known ++ x)).1.span.stop.advancedBy
                (known.drop (first p c (known ++ x)).2) = p.advancedBy (c :: known) := by
              simp only [first, List.take_append_of_le_length (Nat.le_of_lt hahead.next)]
              rw [← Position.advancedBy_append, List.cons_append, List.take_append_drop]
            have hrest := ih (List.drop_append_of_le_length (Nat.le_of_lt hahead.next))
            rw [hplace] at hrest
            simp only [List.filter_cons, hstop, decide_true, if_true]
            rw [List.cons_append, lexemes_known p hahead y]
            exact (List.prefix_cons_inj _).mpr hrest
      · -- the later tokens end further behind
        obtain ⟨-, -, -, -, hrest⟩ := hrun
        have hnone : ∀ token ∈ (first p c rest).1 ::
            lexemes (first p c rest).1.span.stop (rest.drop (first p c rest).2),
            ¬token.span.stop.offset + 2 ≤ (p.advancedBy same).offset := by
          refine List.forall_mem_cons.mpr ⟨hstop, fun token htoken => ?_⟩
          have hlater := hrest.lt_stop token htoken
          omega
        rw [List.filter_eq_nil_iff.mpr fun token htoken => by simpa using hnone token htoken]
        exact List.nil_prefix

end Scan

theorem Text.exists_shared {a b : String} {n : Nat} (ha : (⟨n⟩ : String.Pos.Raw).IsValid a)
    (hb : (⟨n⟩ : String.Pos.Raw).IsValid b)
    (hbytes : a.toByteArray.extract 0 n = b.toByteArray.extract 0 n) :
    ∃ same x y, a.toList = same ++ x ∧ b.toList = same ++ y ∧ Text.byteLength same = n := by
  obtain ⟨first, x, rfl, hfirst⟩ := String.Pos.Raw.isValid_iff_exists_append.mp ha
  obtain ⟨second, y, rfl, hsecond⟩ := String.Pos.Raw.isValid_iff_exists_append.mp hb
  have hn : n = first.utf8ByteSize := congrArg String.Pos.Raw.byteIdx hfirst
  have hn' : n = second.utf8ByteSize := congrArg String.Pos.Raw.byteIdx hsecond
  have hsame : first = second := by
    rw [String.toByteArray_append, String.toByteArray_append,
      ByteArray.extract_append_eq_left (hn.trans String.size_toByteArray.symm),
      ByteArray.extract_append_eq_left (hn'.trans String.size_toByteArray.symm)] at hbytes
    exact String.toByteArray_inj.mp hbytes
  refine ⟨first.toList, x.toList, y.toList, String.toList_append, ?_, ?_⟩
  · rw [hsame, String.toList_append]
  · rw [Text.byteLength_toList, hn]

/-- Of two sources that share their first `n` bytes, the tokens of the one that end two bytes before the `n`-th
are tokens of the other, and they begin its tokens in the same order. -/
theorem TokenStream.drain_shared {a b : String} {n : Nat} (ha : a.utf8ByteSize < Position.limit)
    (hb : b.utf8ByteSize < Position.limit) (hboundary : (⟨n⟩ : String.Pos.Raw).IsValid a)
    (hboundary' : (⟨n⟩ : String.Pos.Raw).IsValid b)
    (hbytes : a.toByteArray.extract 0 n = b.toByteArray.extract 0 n) :
    ∃ tokens tokens' stream stream', (ofSource a).drain = .ok (tokens, stream) ∧
      (ofSource b).drain = .ok (tokens', stream') ∧
        (∀ token ∈ tokens, token.span.stop.offset + 2 ≤ n → token ∈ tokens') ∧
          tokens.filter (fun token => token.span.stop.offset + 2 ≤ n) <+: tokens' := by
  obtain ⟨same, x, y, hax, hby, hn⟩ := Text.exists_shared hboundary hboundary' hbytes
  obtain ⟨stream, hdrain⟩ := drain_ofSource ha
  obtain ⟨stream', hdrain'⟩ := drain_ofSource hb
  have hplace : (Position.origin.advancedBy same).offset = n := by
    rw [Text.advancedBy_offset, hn]
    exact Nat.zero_add n
  have hend : n ≤ (Position.origin.advancedBy a.toList).offset := by
    rw [hax, Position.advancedBy_append, ← hplace]
    exact Position.offset_le_advancedBy _ _
  -- the end of the file is not two bytes before a place in the text
  have hlexemes : (tokenize a).filter (fun token => token.span.stop.offset + 2 ≤ n) =
      (Scan.lexemes Position.origin a.toList).filter (fun token => token.span.stop.offset + 2 ≤ n) := by
    have hlast : ¬(Token.endOfFile (Position.origin.advancedBy a.toList)).span.stop.offset + 2 ≤ n := by
      show ¬(Position.origin.advancedBy a.toList).offset + 2 ≤ n
      omega
    rw [tokenize, Scan.tokens_eq, List.filter_append, List.filter_cons_of_neg (by simpa using hlast),
      List.filter_nil, List.append_nil]
  have hshared : (tokenize a).filter (fun token => token.span.stop.offset + 2 ≤ n) <+: tokenize b := by
    have hprefix := Scan.filter_lexemes_prefix Position.origin hax y
    rw [hplace, ← hby, ← hlexemes] at hprefix
    rw [tokenize, tokenize, Scan.tokens_eq Position.origin b.toList]
    exact hprefix.trans (List.prefix_append _ _)
  refine ⟨tokenize a, tokenize b, stream, stream', hdrain, hdrain', fun token htoken hstop => ?_, hshared⟩
  exact hshared.subset (List.mem_filter.mpr ⟨htoken, decide_eq_true hstop⟩)

/-- The number ends two bytes before the sources differ, behind a point that is not part of it. -/
theorem TokenStream.drain_shared_behind_point :
    (⟨6⟩ : String.Pos.Raw).IsValid "é 1.x" ∧ (⟨6⟩ : String.Pos.Raw).IsValid "é 1.xy 'ü" ∧
      "é 1.x".toByteArray.extract 0 6 = "é 1.xy 'ü".toByteArray.extract 0 6 ∧
        ∃ tokens tokens' stream stream', (ofSource "é 1.x").drain = .ok (tokens, stream) ∧
          (ofSource "é 1.xy 'ü").drain = .ok (tokens', stream') ∧
            (∀ token ∈ tokens, token.span.stop.offset + 2 ≤ 6 → token ∈ tokens') ∧
              tokens.filter (fun token => token.span.stop.offset + 2 ≤ 6) <+: tokens' := by
  have hboundary : (⟨6⟩ : String.Pos.Raw).IsValid "é 1.x" := by decide
  have hboundary' : (⟨6⟩ : String.Pos.Raw).IsValid "é 1.xy 'ü" := by decide
  have hbytes : "é 1.x".toByteArray.extract 0 6 = "é 1.xy 'ü".toByteArray.extract 0 6 := by decide
  exact ⟨hboundary, hboundary', hbytes, drain_shared (by decide) (by decide) hboundary hboundary' hbytes⟩

/-- One byte behind the number would not be enough. -/
example : (tokenize "1.x").map (·.text) = ["1", ".", "x", ""] ∧
    (tokenize "1.5").map (·.text) = ["1.5", ""] := by decide

end ScriptSyntax
