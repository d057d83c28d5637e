import ScriptSyntax.Proofs.Token.Alone
import ScriptSyntax.Proofs.Token.Pattern

/-!
The table of patterns and the tokens.  Each row takes the longest piece that it matches, `Rule.takes_of_mem`, and
the first row that matches reads the token that the text begins with, `Rule.firstMatch_cons`.
-/

namespace ScriptSyntax

namespace Pattern

variable {quote : Char}

theorem lengths_quotedItem_quote (hquote : quote ≠ '\\') (rest : List Char) :
    (quotedItem quote).lengths (quote :: rest) = [] := by
  simp [quotedItem, lengths, hquote]

theorem walks_quotedItem (quote : Char) : (quotedItem quote).Walks (Scan.stringLength quote) := by
  intro text
  induction text using Scan.stringLength.induct quote with
  | case1 => exact .inl ⟨rfl, rfl⟩
  | case2 rest => exact .inl (by simp [quotedItem, lengths, Scan.stringLength])
  | case3 c rest hnewline _ =>
      refine .inr ⟨2, Nat.two_pos, ?_, ?_⟩
      · simp [quotedItem, lengths, hnewline]
      · rw [Scan.stringLength, if_neg hnewline, Nat.add_comm]
        rfl
  | case4 c rest hescape hstop =>
      left
      by_cases hc : c = '\\'
      · cases rest with
        | nil => simp [hc, quotedItem, lengths, Scan.stringLength]
        | cons d rest => exact absurd rfl (hescape d rest hc)
      · rw [Scan.stringLength_cons _ hc, if_pos hstop]
        simp only [hc, false_or] at hstop
        simp [quotedItem, lengths, hc, hstop]
  | case5 c rest hescape hstop _ =>
      have hc : c ≠ '\\' := fun h => hstop (.inr (.inl h))
      refine .inr ⟨1, Nat.one_pos, ?_, ?_⟩
      · rw [not_or, not_or] at hstop
        simp [quotedItem, lengths, hstop]
      · rw [Scan.stringLength_cons _ hc, if_neg hstop, Nat.add_comm]
        rfl

/-- A string is closed only behind all the characters that can stand between quotes. -/
theorem takes_closed (hquote : quote ≠ '\\') (text : List Char) :
    (seq (quoted quote) (one (.of [quote]))).Takes text
      (if (text.drop (Scan.stringLength quote text)).head? = some quote then
        some (Scan.stringLength quote text + 1) else none) := by
  obtain ⟨htakes, hstop⟩ := (walks_quotedItem quote).many text
  -- where another character could follow, no quote does
  have hopen : ∀ m ∈ (quoted quote).lengths text, m ≠ Scan.stringLength quote text →
      (text.drop m).head? ≠ some quote := by
    intro m hm hother hhead
    obtain ⟨rest, hrest⟩ := List.head?_eq_some_iff.mp hhead
    apply (hstop m hm).resolve_left hother
    rw [hrest, lengths_quotedItem_quote hquote]
  have hclose : ∀ behind : List Char, behind.head? ≠ some quote →
      (one (.of [quote])).lengths behind = [] := by
    intro behind hbehind
    cases behind with
    | nil => rfl
    | cons c behind =>
        have hc : c ≠ quote := fun h => hbehind (congrArg some h)
        simp [lengths_one_cons, hc]
  split
  · rename_i hclosed
    obtain ⟨rest, hrest⟩ := List.head?_eq_some_iff.mp hclosed
    apply takes_seq htakes
    · rw [hrest]
      simpa using takes_one (.of [quote]) quote rest
    · intro m hm l hl
      by_cases hmost : m = Scan.stringLength quote text
      · rw [hmost, hrest, lengths_one_cons] at hl
        simp at hl
        omega
      · rw [hclose _ (hopen m hm hmost)] at hl
        cases hl
  · rename_i hunclosed
    apply takes_of_nil
    rw [lengths, List.flatMap_eq_nil_iff]
    intro m hm
    rw [List.map_eq_nil_iff]
    apply hclose
    by_cases hmost : m = Scan.stringLength quote text
    · rw [hmost]
      exact hunclosed
    · exact hopen m hm hmost

theorem takes_fraction (text : List Char) :
    (perhaps (seq (one (.of ['.'])) (plus .digit))).Takes text (some (Scan.fractionLength text)) := by
  cases text with
  | nil => exact takes_perhaps (takes_of_nil rfl)
  | cons c rest =>
      have htakes : (perhaps (seq (one (.of ['.'])) (plus .digit))).Takes (c :: rest) _ :=
        takes_perhaps (takes_char_seq (takes_plus_run .digit rest))
      have hdigit : CharClass.digit.contains = Char.isDigit := funext CharClass.contains_digit
      rw [hdigit] at htakes
      by_cases hc : c = '.'
      · subst hc
        rw [if_pos rfl] at htakes
        rw [Scan.fractionLength]
        cases hdigits : Scan.runLength Char.isDigit rest with
        | zero =>
            rw [hdigits] at htakes
            exact htakes
        | succ digits =>
            rw [hdigits] at htakes
            have hlength : digits + 2 = 1 + (digits + 1) := by omega
            simp only [hlength]
            exact htakes
      · rw [if_neg hc] at htakes
        rw [Scan.fractionLength_cons hc]
        exact htakes

/-- A fraction is read behind all the digits, since no digit begins one. -/
theorem takes_number (c : Char) (rest : List Char) :
    (seq (plus .digit) (perhaps (seq (one (.of ['.'])) (plus .digit)))).Takes (c :: rest)
      (if c.isDigit then some (1 + Scan.numberLength rest) else none) := by
  have hdigit : CharClass.digit.contains = Char.isDigit := funext CharClass.contains_digit
  obtain ⟨hrun, hstop⟩ := (walks_one .digit).many rest
  have hdigits : (plus .digit).Takes (c :: rest) _ := takes_plus .digit c rest
  rw [hdigit] at hdigits hrun hstop
  split
  · rename_i hc
    rw [if_pos hc] at hdigits
    have hfraction := takes_fraction ((c :: rest).drop (1 + Scan.runLength Char.isDigit rest))
    rw [Scan.numberLength, ← Nat.add_assoc]
    rw [Nat.add_comm 1, List.drop_succ_cons] at hfraction
    rw [Nat.add_comm 1] at hdigits ⊢
    apply takes_seq hdigits hfraction
    intro m hm l hl
    rw [plus, lengths, lengths_one_cons, hdigit, if_pos hc, List.flatMap_singleton] at hm
    obtain ⟨k, hk, rfl⟩ := List.mem_map.mp hm
    have hle := hrun.le k hk _ rfl
    have hbound := (takes_fraction ((c :: rest).drop (1 + k))).le l hl _ rfl
    rw [Nat.add_comm 1, List.drop_succ_cons] at hbound
    rcases hstop k hk with rfl | hmore
    · omega
    · -- behind fewer digits is another one
      cases hbehind : rest.drop k with
      | nil =>
          rw [hbehind] at hmore
          exact absurd rfl hmore
      | cons d behind =>
          have hd : d ≠ '.' := by
            rintro rfl
            rw [hbehind] at hmore
            exact hmore rfl
          rw [hbehind, Scan.fractionLength_cons hd] at hbound
          omega
  · rename_i hc
    rw [if_neg hc] at hdigits
    apply takes_of_nil
    rw [lengths, hdigits.eq_nil, List.flatMap_nil]

end Pattern

namespace Rule

variable {rule : Rule} {c : Char} {rest text : List Char} {n : Nat}

/-- The length of the piece that a row takes at the start of the text `c :: rest`. -/
def extent? (rule : Rule) (c : Char) (rest : List Char) : Option Nat :=
  match rule with
  | spacing => if Scan.isSpacing c then some (1 + Scan.runLength Scan.isSpacing rest) else none
  | comment =>
      if c = '/' ∧ rest.head? = some '/' then some (1 + Scan.runLength (· ≠ '\n') rest) else none
  | word => if c.isAlpha then some (1 + Scan.runLength Scan.isWordTail rest) else none
  | number => if c.isDigit then some (1 + Scan.numberLength rest) else none
  | string quote =>
      if c = quote then
        if (rest.drop (Scan.stringLength quote rest)).head? = some quote then
          some (1 + (Scan.stringLength quote rest + 1))
        else none
      else none
  | unterminated quote => if c = quote then some (1 + Scan.stringLength quote rest) else none
  | symbol text _ => if text.isPrefixOf (c :: rest) then some text.length else none

theorem quote_of_mem {quote : Char} (h : string quote ∈ table) : quote ≠ '\\' := by
  rintro rfl
  revert h
  decide

theorem takes_of_mem (h : rule ∈ table) : rule.pattern.Takes (c :: rest) (rule.extent? c rest) := by
  cases rule with
  | spacing =>
      have htakes : spacing.pattern.Takes (c :: rest) _ := Pattern.takes_plus _ c rest
      have hspacing : (CharClass.of [' ', '\t', '\r']).contains = Scan.isSpacing := by
        funext d
        simp [Scan.isSpacing, Bool.or_assoc]
      rw [hspacing] at htakes
      exact htakes
  | comment =>
      have hline : (CharClass.except ['\n']).contains = fun d => decide (d ≠ '\n') := by
        funext d
        simp
      cases rest with
      | nil =>
          have htakes : comment.pattern.Takes [c] _ := Pattern.takes_char_seq (Pattern.takes_of_nil rfl)
          simpa [extent?] using htakes
      | cons d rest =>
          have htakes : comment.pattern.Takes (c :: d :: rest) _ :=
            Pattern.takes_char_seq (Pattern.takes_char_seq (Pattern.takes_run _ rest))
          rw [hline] at htakes
          rw [extent?]
          by_cases hc : c = '/' ∧ (d :: rest).head? = some '/'
          · rw [if_pos hc]
            obtain ⟨rfl, ⟨⟩⟩ := hc
            rw [Pattern.runLength_cons, if_pos (by decide)]
            exact htakes
          · rw [if_neg hc]
            split at htakes
            · rename_i hfirst
              rw [if_neg fun hsecond => hc ⟨hfirst, congrArg some hsecond⟩] at htakes
              exact htakes
            · exact htakes
  | word =>
      have htakes : word.pattern.Takes (c :: rest) _ := Pattern.takes_one_seq (Pattern.takes_run .wordTail rest)
      rw [CharClass.contains_letter, funext CharClass.contains_wordTail] at htakes
      exact htakes
  | number => exact Pattern.takes_number c rest
  | string quote =>
      have htakes : (string quote).pattern.Takes (c :: rest) _ :=
        Pattern.takes_char_seq (Pattern.takes_closed (quote_of_mem h) rest)
      rw [extent?]
      split at htakes
      · rename_i hc
        rw [if_pos hc]
        split at htakes
        · rename_i hclosed
          rw [if_pos hclosed]
          exact htakes
        · rename_i hclosed
          rw [if_neg hclosed]
          exact htakes
      · rename_i hc
        rw [if_neg hc]
        exact htakes
  | unterminated quote =>
      exact Pattern.takes_char_seq ((Pattern.walks_quotedItem quote).many rest).1
  | symbol text kind => exact Pattern.takes_exactly text (c :: rest)

theorem read?_of_takes (h : rule.pattern.Takes text (some n)) (hn : 0 < n) :
    rule.read? text = some (rule.kind (text.take n), n) := by
  rw [read?, h.head, Option.filter_some, if_pos (decide_eq_true hn)]
  rfl

theorem read?_of_takes_none (h : rule.pattern.Takes text none) : rule.read? text = none := by
  rw [read?, h.head]
  rfl

theorem read?_symbol (c : Char) (chars text : List Char) (kind : TokenKind) :
    (symbol (c :: chars) kind).read? text =
      if (c :: chars).isPrefixOf text then some (kind, chars.length + 1) else none := by
  have htakes : (symbol (c :: chars) kind).pattern.Takes text _ := Pattern.takes_exactly (c :: chars) text
  split
  · rename_i h
    rw [if_pos h] at htakes
    exact read?_of_takes htakes (Nat.succ_pos _)
  · rename_i h
    rw [if_neg h] at htakes
    exact read?_of_takes_none htakes

theorem read?_pair (a b c d : Char) (kind : TokenKind) :
    (symbol [a, b] kind).read? (c :: d :: rest) = if c = a ∧ d = b then some (kind, 2) else none := by
  rw [read?_symbol]
  simp [@eq_comm _ c, @eq_comm _ d]

theorem read?_pair_last (a b c : Char) (kind : TokenKind) : (symbol [a, b] kind).read? [c] = none := by
  rw [read?_symbol]
  simp

theorem read?_single (a c : Char) (kind : TokenKind) :
    (symbol [a] kind).read? (c :: rest) = if c = a then some (kind, 1) else none := by
  rw [read?_symbol]
  simp [@eq_comm _ c]

theorem findSome?_pairs (c : Char) (rest : List Char) :
    pairs.findSome? (·.read? (c :: rest)) = (rest.head?.bind (Scan.pairKind? c)).map (·, 2) := by
  cases rest with
  | nil => simp [pairs, read?_pair_last]
  | cons d rest =>
      simp only [List.head?_cons, Option.bind_some]
      unfold Scan.pairKind?
      split
      all_goals simp_all [pairs, read?_pair]

theorem findSome?_singles (c : Char) (rest : List Char) :
    singles.findSome? (·.read? (c :: rest)) = (Scan.singleKind? c).map (·, 1) := by
  unfold Scan.singleKind?
  split
  all_goals simp_all [singles, read?_single]

theorem chars_ne_nil_of_mem {chars : List Char} {kind : TokenKind} (h : symbol chars kind ∈ table) :
    chars ≠ [] := by
  rintro rfl
  revert h
  simp [table, classes, pairs, singles]

theorem extent?_pos (h : rule ∈ table) (hn : rule.extent? c rest = some n) : 0 < n := by
  cases rule with
  | symbol text kind =>
      rw [extent?] at hn
      split at hn <;> cases hn
      exact List.length_pos_of_ne_nil (chars_ne_nil_of_mem h)
  | _ =>
      simp only [extent?] at hn
      repeat' split at hn
      all_goals
        cases hn
        try omega

theorem read?_cons (h : rule ∈ table) :
    rule.read? (c :: rest) = (rule.extent? c rest).map fun n => (rule.kind ((c :: rest).take n), n) := by
  have htakes : rule.pattern.Takes (c :: rest) _ := takes_of_mem h
  cases hextent : rule.extent? c rest with
  | none =>
      rw [hextent] at htakes
      exact read?_of_takes_none htakes
  | some n =>
      rw [hextent] at htakes
      exact read?_of_takes htakes (extent?_pos h hextent)

theorem firstMatch_cons (c : Char) (rest : List Char) :
    firstMatch (c :: rest) = ((Scan.classify c rest).1, 1 + (Scan.classify c rest).2) := by
  have hspacing : spacing.read? (c :: rest) = _ := read?_cons (by decide)
  have hcomment : comment.read? (c :: rest) = _ := read?_cons (by decide)
  have hword : word.read? (c :: rest) = _ := read?_cons (by decide)
  have hnumber : number.read? (c :: rest) = _ := read?_cons (by decide)
  have hdouble : (string '"').read? (c :: rest) = _ := read?_cons (by decide)
  have hsingle : (string '\'').read? (c :: rest) = _ := read?_cons (by decide)
  have hopenDouble : (unterminated '"').read? (c :: rest) = _ := read?_cons (by decide)
  have hopenSingle : (unterminated '\'').read? (c :: rest) = _ := read?_cons (by decide)
  rw [firstMatch, table, List.findSome?_append, List.findSome?_append, findSome?_pairs, findSome?_singles]
  simp only [classes, List.findSome?_cons, List.findSome?_nil, hspacing, read?_single, hcomment, hword, hnumber,
    hdouble, hsingle, hopenDouble, hopenSingle, extent?]
  by_cases hspace : Scan.isSpacing c
  · simp only [Scan.classify, if_pos hspace]
    rfl
  by_cases hnewline : c = '\n'
  · simp only [Scan.classify, if_neg hspace, if_pos hnewline]
    rfl
  by_cases hslashes : c = '/' ∧ rest.head? = some '/'
  · simp only [Scan.classify, if_neg hspace, if_neg hnewline, if_pos hslashes]
    rfl
  by_cases halpha : c.isAlpha
  · simp only [Scan.classify, if_neg hspace, if_neg hnewline, if_neg hslashes, if_pos halpha]
    show (word.kind _, _) = _
    rw [Nat.add_comm, List.take_succ_cons, Scan.take_runLength]
    rfl
  by_cases hdigit : c.isDigit
  · simp only [Scan.classify, if_neg hspace, if_neg hnewline, if_neg hslashes, if_neg halpha, if_pos hdigit]
    rfl
  by_cases hquote : c = '"' ∨ c = '\''
  · simp only [Scan.classify, if_neg hspace, if_neg hnewline, if_neg hslashes, if_neg halpha, if_neg hdigit,
      if_pos hquote, Scan.string]
    rcases hquote with rfl | rfl
    · by_cases hclosed : (rest.drop (Scan.stringLength '"' rest)).head? = some '"'
      · simp only [if_pos hclosed]
        rfl
      · simp only [if_neg hclosed]
        rfl
    · by_cases hclosed : (rest.drop (Scan.stringLength '\'' rest)).head? = some '\''
      · simp only [if_pos hclosed]
        rfl
      · simp only [if_neg hclosed]
        rfl
  · simp only [Scan.classify, if_neg hspace, if_neg hnewline, if_neg hslashes, if_neg halpha, if_neg hdigit,
      if_neg hquote, Scan.symbol]
    rw [not_or] at hquote
    simp only [if_neg hquote.1, if_neg hquote.2]
    cases rest.head?.bind (Scan.pairKind? c) with
    | some kind => rfl
    | none =>
        cases Scan.singleKind? c with
        | some kind => rfl
        | none => rfl

end Rule

end ScriptSyntax
