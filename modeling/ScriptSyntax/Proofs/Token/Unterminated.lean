import ScriptSyntax.Proofs.Token.Join

/-!
Strings that are not closed.  Such a string takes the rest of its line, but for one backslash: the last character
of the line if it is a backslash that no other one escapes, `unterminated_string`.
-/

namespace ScriptSyntax

def TokenKind.endsLine (kind : TokenKind) : Bool :=
  kind = .newline || kind = .endOfFile

namespace Scan

/-- The number of backslashes that a line ends with. -/
def trailingBackslashes (line : List Char) : Nat :=
  runLength (· = '\\') line.reverse

theorem runLength_append_eq (p : Char → Bool) (text after : List Char) :
    runLength p (text ++ after) =
      if text.all p then text.length + runLength p after else runLength p text := by
  induction text with
  | nil => simp [runLength]
  | cons c text ih =>
      by_cases hc : p c
      · simp only [runLength, List.cons_append, List.takeWhile_cons_of_pos hc, List.length_cons,
          List.all_cons, hc, Bool.true_and] at ih ⊢
        rw [ih]
        split <;> omega
      · simp [runLength, hc]

theorem trailingBackslashes_cons {c : Char} (hc : c ≠ '\\') (line : List Char) :
    trailingBackslashes (c :: line) = trailingBackslashes line := by
  rw [trailingBackslashes, List.reverse_cons]
  apply runLength_append
  rintro d ⟨⟩
  exact decide_eq_false hc

theorem trailingBackslashes_escape (c : Char) (line : List Char) :
    trailingBackslashes ('\\' :: c :: line) % 2 = trailingBackslashes line % 2 := by
  have htwo : runLength (· = '\\') [c, '\\'] % 2 = 0 := by
    by_cases hc : c = '\\'
    · simp [runLength, hc]
    · simp [runLength, hc]
  have hreverse : ('\\' :: c :: line).reverse = line.reverse ++ [c, '\\'] := by simp
  rw [trailingBackslashes, hreverse, runLength_append_eq]
  split
  · -- nothing but backslashes stands behind the escaped character
    rename_i hall
    have hline : trailingBackslashes line = line.reverse.length := by
      have hwhole := runLength_append_eq (· = '\\') line.reverse []
      rwa [if_pos hall, List.append_nil] at hwhole
    rw [hline]
    omega
  · rfl

theorem eq_backslash_of_trailing {line : List Char} (h : trailingBackslashes line % 2 = 1) :
    line.getLast? = some '\\' := by
  rw [← List.head?_reverse]
  cases hlast : line.reverse with
  | nil => simp [trailingBackslashes, hlast, runLength] at h
  | cons c front =>
      by_cases hc : c = '\\'
      · rw [hc]
        rfl
      · simp [trailingBackslashes, hlast, runLength, hc] at h

/-- A string that is not closed takes its line, without a backslash at the end that nothing escapes. -/
theorem stringLength_of_open {quote : Char} {line : List Char} (hline : '\n' ∉ line)
    (hopen : (line.drop (stringLength quote line)).head? ≠ some quote) :
    stringLength quote line + trailingBackslashes line % 2 = line.length := by
  induction line using stringLength.induct quote with
  | case1 => rfl
  | case2 rest => simp at hline
  | case3 c rest hnewline ih =>
      simp only [stringLength, if_neg hnewline, List.drop_succ_cons, List.length_cons] at hopen ⊢
      have hrest : '\n' ∉ rest := fun hmem => hline (by simp [hmem])
      have := ih hrest hopen
      rw [trailingBackslashes_escape]
      omega
  | case4 c rest hescape hstop =>
      by_cases hc : c = '\\'
      · -- the backslash is the last character of the line
        cases rest with
        | nil => simp [hc, stringLength, trailingBackslashes, runLength]
        | cons d rest => exact absurd rfl (hescape d rest hc)
      · rw [stringLength_cons _ hc, if_pos hstop] at hopen
        rcases hstop with rfl | rfl | rfl
        · exact absurd rfl hopen
        · exact absurd rfl hc
        · simp at hline
  | case5 c rest hescape hstop ih =>
      have hc : c ≠ '\\' := fun h => hstop (.inr (.inl h))
      rw [stringLength_cons _ hc, if_neg hstop] at hopen ⊢
      have := ih (fun hmem => hline (.tail _ hmem)) (by simpa using hopen)
      rw [trailingBackslashes_cons hc, List.length_cons]
      omega

theorem symbol_ne_unterminated (c : Char) (rest : List Char) :
    (symbol c rest).1 ≠ .error .unterminatedString := by
  have hkinds : ∀ kind ∈ symbolKinds, kind ≠ .error .unterminatedString := by decide
  exact hkinds _ (kind_mem_symbolKinds c rest)

theorem classify_of_unterminated {c : Char} {rest : List Char}
    (hkind : (classify c rest).1 = .error .unterminatedString) :
    c ≠ '\\' ∧ c ≠ '\n' ∧ classify c rest = string c rest := by
  have hc : c ≠ '\n' := by
    rintro rfl
    cases hkind
  cases begins c with
  | spacing hread | newline hread | number hread =>
      rw [hread] at hkind
      cases hkind
  | slash hread =>
      rw [hread] at hkind
      split at hkind
      · cases hkind
      · exact absurd hkind (symbol_ne_unterminated c rest)
  | word hread =>
      rw [hread] at hkind
      exact absurd hkind (wordKind_ne_error _ _)
  | string hescape hread => exact ⟨hescape, hc, hread rest⟩
  | symbol hread =>
      rw [hread] at hkind
      exact absurd hkind (symbol_ne_unterminated c rest)

theorem classify_open {c : Char} {line after : List Char} (hline : '\n' ∉ line)
    (hafter : ∀ d ∈ after.head?, d = '\n')
    (hkind : (classify c (line ++ after)).1 = .error .unterminatedString) :
    (classify c (line ++ after)).2 + trailingBackslashes (c :: line) % 2 = line.length := by
  obtain ⟨hescape, hc, -⟩ := classify_of_unterminated hkind
  have hwhole : classify c (line ++ after) = classify c line := by
    cases after with
    | nil => rw [List.append_nil]
    | cons d after =>
        obtain rfl := hafter d rfl
        exact classify_line c line
  rw [hwhole] at hkind ⊢
  obtain ⟨-, -, hread⟩ := classify_of_unterminated hkind
  rw [hread] at hkind ⊢
  rw [trailingBackslashes_cons hescape]
  unfold string at hkind ⊢
  simp only at hkind ⊢
  split at hkind
  · cases hkind
  · rename_i hopen
    rw [if_neg hopen]
    exact stringLength_of_open hline hopen

theorem drop_open {c : Char} {line after : List Char} (hline : '\n' ∉ line)
    (hafter : ∀ d ∈ after.head?, d = '\n')
    (hkind : (classify c (line ++ after)).1 = .error .unterminatedString) :
    trailingBackslashes (c :: line) % 2 = 0 ∧
        (line ++ after).take (classify c (line ++ after)).2 = line ∧
        (line ++ after).drop (classify c (line ++ after)).2 = after ∨
      trailingBackslashes (c :: line) % 2 = 1 ∧
        (line ++ after).take (classify c (line ++ after)).2 ++ ['\\'] = line ∧
        (line ++ after).drop (classify c (line ++ after)).2 = '\\' :: after := by
  have hlength := classify_open hline hafter hkind
  obtain ⟨hescape, -, -⟩ := classify_of_unterminated hkind
  rcases Nat.mod_two_eq_zero_or_one (trailingBackslashes (c :: line)) with heven | hodd
  · rw [heven, Nat.add_zero] at hlength
    rw [hlength]
    exact .inl ⟨heven, List.take_left, List.drop_left⟩
  · obtain ⟨front, hfront⟩ : ∃ front, line = front ++ ['\\'] := by
      rw [trailingBackslashes_cons hescape] at hodd
      exact List.getLast?_eq_some_iff.mp (eq_backslash_of_trailing hodd)
    subst hfront
    have hfront : (classify c (front ++ ['\\'] ++ after)).2 = front.length := by
      rw [hodd, List.length_append, List.length_singleton] at hlength
      exact Nat.succ.inj hlength
    rw [hfront, List.append_assoc, List.take_left, List.drop_left]
    exact .inr ⟨hodd, rfl, rfl⟩

theorem classify_backslash (rest : List Char) :
    classify '\\' rest = (.error .illegalCharacter, 0) := by
  cases rest with
  | nil => rfl
  | cons d rest => rfl

theorem exists_tokens_of_line_end (p : Position) {after : List Char}
    (hafter : ∀ d ∈ after.head?, d = '\n') :
    ∃ next later, tokens p after = next :: later ∧ next.kind.endsLine := by
  cases after with
  | nil => exact ⟨_, _, tokens_nil p, rfl⟩
  | cons d after =>
      obtain rfl := hafter d rfl
      exact ⟨_, _, tokens_cons p _ _, rfl⟩

theorem exists_line (text : List Char) :
    ∃ line after, text = line ++ after ∧ '\n' ∉ line ∧ ∀ c ∈ after.head?, c = '\n' := by
  induction text with
  | nil => exact ⟨[], [], rfl, by simp, by simp⟩
  | cons c text ih =>
      by_cases hc : c = '\n'
      · exact ⟨[], c :: text, rfl, by simp, by simp [hc]⟩
      · obtain ⟨line, after, rfl, hline, hafter⟩ := ih
        exact ⟨c :: line, after, rfl, by simp [Ne.symm hc, hline], hafter⟩

end Scan

/-- The text is what is left of a line of the source from the place on. -/
def Position.IsBefore (source : String) (p : Position) (line : List Char) : Prop :=
  ∃ passed after, source.toList = passed ++ (line ++ after) ∧ p = Position.origin.advancedBy passed ∧
    '\n' ∉ line ∧ ∀ c ∈ after.head?, c = '\n'

/-- A string that is not closed ends with its line, or before a backslash at the end of the line that no other
backslash escapes.  That backslash is an illegal character of its own. -/
theorem unterminated_string {source : String} {before behind : List Token} {token : Token}
    (htokens : tokenize source = before ++ token :: behind)
    (hkind : token.kind = .error .unterminatedString) :
    ∃ line next later, token.span.start.IsBefore source line ∧ behind = next :: later ∧
      (next.kind.endsLine ↔ Scan.trailingBackslashes line % 2 = 0) ∧
      (next.kind.endsLine → token.text.toList = line) ∧
      (¬next.kind.endsLine → token.text.toList ++ ['\\'] = line ∧
        next.kind = .error .illegalCharacter ∧ next.text = "\\" ∧
        ∃ third ∈ later.head?, third.kind.endsLine) := by
  obtain ⟨passed, c, rest, hsource, rfl, rfl⟩ :=
    Scan.exists_first_of_tokens htokens (by simp [hkind])
  obtain ⟨line, after, rfl, hline, hafter⟩ := Scan.exists_line rest
  obtain ⟨-, hc, -⟩ := Scan.classify_of_unterminated hkind
  have hbefore : (Position.origin.advancedBy passed).IsBefore source (c :: line) :=
    ⟨passed, after, hsource, rfl, by simp [Ne.symm hc, hline], hafter⟩
  refine ⟨c :: line, ?_⟩
  simp only [Scan.first, String.toList_ofList]
  rcases Scan.drop_open hline hafter hkind with ⟨heven, htake, hdrop⟩ | ⟨hodd, htake, hdrop⟩
  · rw [htake, hdrop]
    obtain ⟨next, later, hnext, hends⟩ := Scan.exists_tokens_of_line_end _ hafter
    exact ⟨next, later, hbefore, hnext, ⟨fun _ => heven, fun _ => hends⟩, fun _ => rfl,
      fun hother => absurd hends hother⟩
  · rw [hdrop, Scan.tokens_cons]
    simp only [Scan.first, Scan.classify_backslash, List.drop_zero]
    obtain ⟨third, later, hthird, hends⟩ := Scan.exists_tokens_of_line_end _ hafter
    refine ⟨_, _, hbefore, rfl, ?_, fun hends => ?_, fun _ => ⟨?_, rfl, rfl, third, ?_, hends⟩⟩
    · rw [hodd]
      exact iff_of_false Bool.false_ne_true Nat.one_ne_zero
    · cases hends
    · rw [List.cons_append, htake]
    · rw [hthird]
      rfl

theorem unterminated_string_behind_escape :
    let source := "x = \"a\\\\\ny"
    ∃ line next later, (⟨4, 1, 5⟩ : Position).IsBefore source line ∧ (tokenize source).drop 5 = next :: later ∧
      (next.kind.endsLine ↔ Scan.trailingBackslashes line % 2 = 0) ∧
      (next.kind.endsLine → "\"a\\\\".toList = line) ∧
      (¬next.kind.endsLine → "\"a\\\\".toList ++ ['\\'] = line ∧
        next.kind = .error .illegalCharacter ∧ next.text = "\\" ∧
        ∃ third ∈ later.head?, third.kind.endsLine) := by
  intro source
  have htokens : tokenize source = (tokenize source).take 4 ++
      ⟨.error .unterminatedString, "\"a\\\\", ⟨⟨4, 1, 5⟩, ⟨8, 1, 9⟩⟩⟩ :: (tokenize source).drop 5 := by
    decide +kernel
  exact unterminated_string htokens rfl

/-- Behind a string that is not closed, but for a backslash, is the backslash and not the end of the line. -/
theorem backslash_behind_unterminated :
    ∃ token next behind, tokenize "\"a\\" = token :: next :: behind ∧
      token.kind = .error .unterminatedString ∧ next.kind = .error .illegalCharacter ∧
      next.kind.endsLine = false :=
  ⟨⟨.error .unterminatedString, "\"a", ⟨⟨0, 1, 1⟩, ⟨2, 1, 3⟩⟩⟩,
    ⟨.error .illegalCharacter, "\\", ⟨⟨2, 1, 3⟩, ⟨3, 1, 4⟩⟩⟩, [Token.endOfFile ⟨3, 1, 4⟩], by decide +kernel,
    rfl, rfl, rfl⟩

end ScriptSyntax
