import Mathlib.Data.List.MinMax
import ScriptSyntax.Proofs.Token.Table

/-!
First match is longest match.  Of two rows of the table that match a text the earlier one takes the longer piece,
`Rule.pairwise_outranks`, so the token at the start of the text does not depend on the order of the rows,
`token_longest_match`.
-/

namespace ScriptSyntax

namespace Rule

variable {rule : Rule} {c : Char} {rest : List Char} {n : Nat}

/-- The characters that every piece of the row begins with. -/
def lead : Rule → List Char
  | spacing | word | number => []
  | comment => ['/', '/']
  | string quote | unterminated quote => [quote]
  | symbol text _ => text

/-- The first characters of the pieces of a row. -/
def opens (rule : Rule) (c : Char) : Bool :=
  match rule with
  | spacing => Scan.isSpacing c
  | word => c.isAlpha
  | number => c.isDigit
  | rule => rule.lead.head? = some c

/-- No text is matched by both rows. -/
def apart (a b : Rule) : Bool :=
  match a.lead, b.lead with
  | [], [] => a != b
  | [], c :: _ => !a.opens c
  | c :: _, [] => !b.opens c
  | x, y => !x.isPrefixOf y && !y.isPrefixOf x

/-- Where both rows match a text, the first one takes the longer piece: the other row is a symbol that its pieces
only begin with, or a string that is not closed. -/
def outranks (a b : Rule) : Bool :=
  a.apart b ||
    match a, b with
    | string quote, unterminated quote' => quote = quote'
    | a, symbol text _ => text.length < a.lead.length
    | _, _ => false

/-- Where two rows of the table match a text, the earlier one takes the longer piece. -/
theorem pairwise_outranks : table.Pairwise fun a b => a.outranks b := by
  decide +kernel

theorem lead_of_extent? (h : rule.extent? c rest = some n) :
    rule.lead <+: c :: rest ∧ rule.lead.length ≤ n := by
  cases rule with
  | spacing | word | number => exact ⟨List.nil_prefix, Nat.zero_le n⟩
  | comment =>
      rw [extent?] at h
      split at h <;> cases h
      rename_i hslashes
      obtain ⟨rfl, hrest⟩ := hslashes
      obtain ⟨behind, rfl⟩ := List.head?_eq_some_iff.mp hrest
      rw [Pattern.runLength_cons, if_pos (by decide)]
      exact ⟨⟨behind, rfl⟩, Nat.add_le_add_left (Nat.le_add_right 1 _) 1⟩
  | string quote =>
      rw [extent?] at h
      split at h
      · rename_i hc
        split at h <;> cases h
        exact ⟨⟨rest, by rw [hc]; rfl⟩, Nat.le_add_right 1 _⟩
      · cases h
  | unterminated quote =>
      rw [extent?] at h
      split at h <;> cases h
      rename_i hc
      exact ⟨⟨rest, by rw [hc]; rfl⟩, Nat.le_add_right 1 _⟩
  | symbol text kind =>
      rw [extent?] at h
      split at h <;> cases h
      rename_i htext
      exact ⟨List.isPrefixOf_iff_prefix.mp htext, Nat.le_refl _⟩

theorem opens_of_extent? (hrule : rule ∈ table) (h : rule.extent? c rest = some n) : rule.opens c := by
  have hlead : rule.lead ≠ [] → decide (rule.lead.head? = some c) := by
    intro hne
    obtain ⟨⟨behind, hbehind⟩, -⟩ := lead_of_extent? h
    cases hchars : rule.lead with
    | nil => exact absurd hchars hne
    | cons d chars =>
        rw [hchars] at hbehind
        cases hbehind
        exact decide_eq_true rfl
  cases rule with
  | spacing | word | number =>
      rw [extent?] at h
      split at h <;> cases h
      assumption
  | comment => exact hlead (List.cons_ne_nil _ _)
  | string quote | unterminated quote => exact hlead (List.cons_ne_nil _ _)
  | symbol text kind => exact hlead (chars_ne_nil_of_mem hrule)

theorem not_isAlpha_of_isSpacing (hspace : Scan.isSpacing c) : ¬c.isAlpha ∧ ¬c.isDigit := by
  unfold Scan.isSpacing at hspace
  simp only [Bool.or_eq_true, decide_eq_true_eq] at hspace
  rcases hspace with (rfl | rfl) | rfl
  all_goals decide

theorem not_isDigit_of_isAlpha (halpha : c.isAlpha) : ¬c.isDigit := by
  simp only [CharClass.isAlpha_eq, Char.isDigit, Bool.or_eq_true, Bool.and_eq_true, decide_eq_true_eq,
    UInt32.le_iff_toNat_le] at halpha ⊢
  have hnine : '9'.val.toNat = 57 := rfl
  have hupper : 'A'.val.toNat = 65 := rfl
  have hlower : 'a'.val.toNat = 97 := rfl
  omega

theorem cases_of_lead_eq_nil (h : rule ∈ table) (hlead : rule.lead = []) :
    rule = spacing ∨ rule = word ∨ rule = number := by
  cases rule with
  | spacing => exact .inl rfl
  | word => exact .inr (.inl rfl)
  | number => exact .inr (.inr rfl)
  | symbol chars kind => exact absurd hlead (chars_ne_nil_of_mem h)
  | _ => cases hlead

theorem opens_disjoint {a b : Rule} (ha : a ∈ table) (hb : b ∈ table) (hleadA : a.lead = [])
    (hleadB : b.lead = []) (hne : a ≠ b) : ¬(a.opens c ∧ b.opens c) := by
  rintro ⟨hopensA, hopensB⟩
  rcases cases_of_lead_eq_nil ha hleadA with rfl | rfl | rfl
  · have hother := not_isAlpha_of_isSpacing hopensA
    rcases cases_of_lead_eq_nil hb hleadB with rfl | rfl | rfl
    · exact hne rfl
    · exact hother.1 hopensB
    · exact hother.2 hopensB
  · rcases cases_of_lead_eq_nil hb hleadB with rfl | rfl | rfl
    · exact (not_isAlpha_of_isSpacing hopensB).1 hopensA
    · exact hne rfl
    · exact not_isDigit_of_isAlpha hopensA hopensB
  · rcases cases_of_lead_eq_nil hb hleadB with rfl | rfl | rfl
    · exact (not_isAlpha_of_isSpacing hopensB).2 hopensA
    · exact not_isDigit_of_isAlpha hopensB hopensA
    · exact hne rfl

theorem not_apart {a b : Rule} {m : Nat} (ha : a ∈ table) (hb : b ∈ table)
    (hn : a.extent? c rest = some n) (hm : b.extent? c rest = some m) : a.apart b = false := by
  rw [← Bool.not_eq_true]
  intro hapart
  have hopensA := opens_of_extent? ha hn
  have hopensB := opens_of_extent? hb hm
  obtain ⟨hleadA, -⟩ := lead_of_extent? hn
  obtain ⟨hleadB, -⟩ := lead_of_extent? hm
  unfold apart at hapart
  split at hapart
  · rename_i hnilA hnilB
    exact opens_disjoint ha hb hnilA hnilB (by simpa using hapart) ⟨hopensA, hopensB⟩
  · rename_i d chars hnilA hcharsB
    rw [hcharsB] at hleadB
    obtain rfl := (List.cons_prefix_cons.mp hleadB).1
    rw [hopensA] at hapart
    cases hapart
  · rename_i d chars hcharsA hnilB
    rw [hcharsA] at hleadA
    obtain rfl := (List.cons_prefix_cons.mp hleadA).1
    rw [hopensB] at hapart
    cases hapart
  · rw [Bool.and_eq_true, Bool.not_eq_true', Bool.not_eq_true', ← Bool.not_eq_true, ← Bool.not_eq_true,
      List.isPrefixOf_iff_prefix, List.isPrefixOf_iff_prefix] at hapart
    rcases List.prefix_or_prefix_of_prefix hleadA hleadB with h | h
    · exact hapart.1 h
    · exact hapart.2 h

theorem lt_of_outranks {a b : Rule} {m : Nat} (ha : a ∈ table) (hb : b ∈ table) (h : a.outranks b)
    (hn : a.extent? c rest = some n) (hm : b.extent? c rest = some m) : m < n := by
  unfold outranks at h
  rw [not_apart ha hb hn hm, Bool.false_or] at h
  cases b with
  | symbol text kind =>
      have hlonger : text.length < a.lead.length := by
        cases a <;> exact of_decide_eq_true h
      obtain ⟨-, hle⟩ := lead_of_extent? hn
      rw [extent?] at hm
      split at hm <;> cases hm
      exact Nat.lt_of_lt_of_le hlonger hle
  | unterminated quote' =>
      cases a with
      | string quote =>
          obtain rfl := of_decide_eq_true h
          rw [extent?] at hn
          rw [extent?] at hm
          split at hn
          · rename_i hc
            rw [if_pos hc] at hm
            split at hn <;> cases hn
            cases hm
            omega
          · cases hn
      | _ => cases h
  | _ => cases a <;> cases h

theorem lt_of_later {earlier later : List Rule} (htable : table = earlier ++ rule :: later)
    (hn : rule.extent? c rest = some n) {other : Rule} (hother : other ∈ later) {m : Nat}
    (hm : other.extent? c rest = some m) : m < n := by
  have hpairs := pairwise_outranks
  rw [htable, List.pairwise_append, List.pairwise_cons] at hpairs
  obtain ⟨-, ⟨hlater, -⟩, -⟩ := hpairs
  have hmem : ∀ row ∈ rule :: later, row ∈ table := by
    intro row hrow
    rw [htable]
    exact List.mem_append_right earlier hrow
  exact lt_of_outranks (hmem rule List.mem_cons_self) (hmem other (.tail _ hother)) (hlater other hother) hn hm

/-- What the longest piece that some row matches is read as, or else one illegal character. -/
def longestMatch (rules : List Rule) (text : List Char) : TokenKind × Nat :=
  ((rules.filterMap (·.read? text)).argmax Prod.snd).getD (.error .illegalCharacter, 1)

theorem exists_of_findSome? {result : TokenKind × Nat}
    (h : table.findSome? (·.read? (c :: rest)) = some result) :
    ∃ earlier rule later, table = earlier ++ rule :: later ∧ rule.read? (c :: rest) = some result ∧
      rule.extent? c rest = some result.2 ∧ rule.kind ((c :: rest).take result.2) = result.1 ∧
      ∀ other ∈ earlier ++ later, ∀ m, other.extent? c rest = some m → m < result.2 := by
  obtain ⟨earlier, rule, later, htable, hread, hnone⟩ := List.findSome?_eq_some_iff.mp h
  have hcons := hread
  rw [read?_cons (by simp [htable])] at hcons
  obtain ⟨n, hextent, rfl⟩ := Option.map_eq_some_iff.mp hcons
  refine ⟨earlier, rule, later, htable, hread, hextent, rfl, fun other hother m hm => ?_⟩
  rcases List.mem_append.mp hother with hbefore | hbehind
  · -- an earlier row would have been found
    have hfound := hnone other hbefore
    rw [read?_cons (by simp [htable, hbefore]), hm] at hfound
    cases hfound
  · exact lt_of_later htable hextent hbehind hm

/-- The longest match is the same in whatever order the rows stand, and in the table it is the first one. -/
theorem longestMatch_eq {rules : List Rule} (h : rules.Perm table) (c : Char) (rest : List Char) :
    longestMatch rules (c :: rest) = firstMatch (c :: rest) := by
  unfold longestMatch firstMatch
  cases hfirst : table.findSome? (·.read? (c :: rest)) with
  | none =>
      have hnothing : rules.filterMap (·.read? (c :: rest)) = [] := by
        rw [List.filterMap_eq_nil_iff]
        intro rule hrule
        exact List.findSome?_eq_none_iff.mp hfirst rule (h.mem_iff.mp hrule)
      rw [hnothing]
      rfl
  | some result =>
      obtain ⟨earlier, rule, later, htable, hread, -, -, hshorter⟩ := exists_of_findSome? hfirst
      have hlongest : ∀ found ∈ rules.filterMap (·.read? (c :: rest)),
          found = result ∨ found.2 < result.2 := by
        intro found hfound
        obtain ⟨other, hother, hfound⟩ := List.mem_filterMap.mp hfound
        rw [h.mem_iff] at hother
        have hplace : other = rule ∨ other ∈ earlier ++ later := by
          rw [htable, List.mem_append, List.mem_cons] at hother
          rw [List.mem_append]
          tauto
        rcases hplace with rfl | hplace
        · rw [hread] at hfound
          exact .inl (Option.some.inj hfound).symm
        · rw [read?_cons hother] at hfound
          obtain ⟨m, hm, rfl⟩ := Option.map_eq_some_iff.mp hfound
          exact .inr (hshorter other hplace m hm)
      have hargmax : (rules.filterMap (·.read? (c :: rest))).argmax Prod.snd = some result := by
        rw [List.argmax_eq_some_iff]
        refine ⟨List.mem_filterMap.mpr ⟨rule, h.mem_iff.mpr (by simp [htable]), hread⟩, fun found hfound => ?_,
          fun found hfound hle => ?_⟩
        · rcases hlongest found hfound with rfl | hlt
          · exact Nat.le_refl _
          · exact Nat.le_of_lt hlt
        · rcases hlongest found hfound with rfl | hlt
          · exact Nat.le_refl _
          · exact absurd hle (Nat.not_le.mpr hlt)
      rw [hargmax]

theorem kind_ne_illegalCharacter (h : rule ∈ table) (text : List Char) :
    rule.kind text ≠ .error .illegalCharacter := by
  cases rule with
  | word => exact Scan.wordKind_ne_error text _
  | symbol chars kind =>
      rintro rfl
      revert h
      simp [table, classes, pairs, singles]
  | _ =>
      intro hkind
      cases hkind

theorem le_of_matches (hrule : rule ∈ table) {piece : List Char} (hpiece : piece <+: c :: rest)
    (hmatch : rule.pattern.Matches piece) : ∃ n, rule.extent? c rest = some n ∧ piece.length ≤ n := by
  have htakes : rule.pattern.Takes (c :: rest) _ := takes_of_mem hrule
  have hlisted : piece.length ∈ rule.pattern.lengths (c :: rest) :=
    Pattern.mem_lengths_iff.mpr ⟨piece, hpiece, rfl, hmatch⟩
  cases hextent : rule.extent? c rest with
  | none =>
      rw [hextent] at htakes
      rw [htakes.eq_nil] at hlisted
      cases hlisted
  | some n => exact ⟨n, rfl, htakes.le _ hlisted n hextent⟩

theorem matches_of_extent? (hrule : rule ∈ table) (h : rule.extent? c rest = some n) :
    rule.pattern.Matches ((c :: rest).take n) := by
  have htakes : rule.pattern.Takes (c :: rest) _ := takes_of_mem hrule
  rw [h] at htakes
  obtain ⟨piece, hpiece, rfl, hmatch⟩ := Pattern.mem_lengths_iff.mp (List.mem_of_head? htakes.head)
  rw [← List.prefix_iff_eq_take.mp hpiece]
  exact hmatch

theorem exists_of_legal (hlegal : (Scan.classify c rest).1 ≠ .error .illegalCharacter) :
    ∃ earlier rule later, table = earlier ++ rule :: later ∧
      rule.pattern.Matches ((c :: rest).take (1 + (Scan.classify c rest).2)) ∧
      rule.kind ((c :: rest).take (1 + (Scan.classify c rest).2)) = (Scan.classify c rest).1 ∧
      ∀ other ∈ earlier ++ later, ∀ piece, piece <+: c :: rest → other.pattern.Matches piece →
        piece.length < 1 + (Scan.classify c rest).2 := by
  have hfirst := firstMatch_cons c rest
  unfold firstMatch at hfirst
  cases hfound : table.findSome? (·.read? (c :: rest)) with
  | none =>
      rw [hfound] at hfirst
      exact absurd (congrArg Prod.fst hfirst).symm hlegal
  | some result =>
      rw [hfound] at hfirst
      obtain rfl : result = _ := hfirst
      obtain ⟨earlier, rule, later, htable, -, hextent, hkind, hshorter⟩ := exists_of_findSome? hfound
      refine ⟨earlier, rule, later, htable, matches_of_extent? (by simp [htable]) hextent, hkind, ?_⟩
      intro other hother piece hpiece hmatch
      have hmem : other ∈ table := by
        rw [htable, List.mem_append, List.mem_cons]
        rw [List.mem_append] at hother
        tauto
      obtain ⟨m, hm, hle⟩ := le_of_matches hmem hpiece hmatch
      exact Nat.lt_of_le_of_lt hle (hshorter other hother m hm)

theorem not_matches_of_illegal (hillegal : (Scan.classify c rest).1 = .error .illegalCharacter)
    (hrule : rule ∈ table) {piece : List Char} (hpiece : piece <+: c :: rest) :
    ¬rule.pattern.Matches piece := by
  intro hmatch
  obtain ⟨n, hextent, -⟩ := le_of_matches hrule hpiece hmatch
  have hfirst := firstMatch_cons c rest
  unfold firstMatch at hfirst
  cases hfound : table.findSome? (·.read? (c :: rest)) with
  | none =>
      have hread := List.findSome?_eq_none_iff.mp hfound rule hrule
      rw [read?_cons hrule, hextent] at hread
      cases hread
  | some result =>
      rw [hfound] at hfirst
      obtain rfl : result = _ := hfirst
      obtain ⟨earlier, found, later, htable, -, -, hkind, -⟩ := exists_of_findSome? hfound
      exact absurd (hkind.trans hillegal) (kind_ne_illegalCharacter (by simp [htable]) _)

end Rule

/-- The token is what the first row of the table that matches reads at the start of the text.  Any other row matches
shorter pieces only, and none matches at an illegal character, so the longest match is the same token in whatever
order the rows stand. -/
structure Token.IsLongestMatch (token : Token) (text : List Char) : Prop where
  starts : token.text.toList <+: text
  first : Rule.firstMatch text = (token.kind, token.text.length)
  legal : token.kind ≠ .error .illegalCharacter →
    ∃ earlier rule later, Rule.table = earlier ++ rule :: later ∧
      rule.pattern.Matches token.text.toList ∧ rule.kind token.text.toList = token.kind ∧
      ∀ other ∈ earlier ++ later, ∀ piece, piece <+: text → other.pattern.Matches piece →
        piece.length < token.text.length
  illegal : token.kind = .error .illegalCharacter → ∀ rule ∈ Rule.table, ∀ piece, piece <+: text →
    ¬rule.pattern.Matches piece
  anyOrder : ∀ rules : List Rule, rules.Perm Rule.table →
    Rule.longestMatch rules text = (token.kind, token.text.length)

theorem Scan.isLongestMatch_first (p : Position) (c : Char) (rest : List Char) :
    (first p c rest).1.IsLongestMatch (c :: rest) := by
  have hlength : (c :: rest.take (classify c rest).2).length = 1 + (classify c rest).2 := by
    rw [List.length_cons, List.length_take, Nat.min_eq_left (classify_le c rest), Nat.add_comm]
  have htake : c :: rest.take (classify c rest).2 = (c :: rest).take (1 + (classify c rest).2) := by
    rw [Nat.add_comm, List.take_succ_cons]
  constructor
  all_goals simp only [first, String.toList_ofList, String.length_ofList, hlength]
  · rw [htake]
    exact List.take_prefix _ _
  · exact Rule.firstMatch_cons c rest
  · rw [htake]
    exact Rule.exists_of_legal
  · intro hillegal rule hrule piece hpiece
    exact Rule.not_matches_of_illegal hillegal hrule hpiece
  · intro rules hrules
    rw [Rule.longestMatch_eq hrules, Rule.firstMatch_cons]

/-- Each token of a source is the longest match at its place. -/
theorem token_longest_match {source : String} {token : Token} (htoken : token ∈ tokenize source)
    (hkind : token.kind ≠ .endOfFile) :
    ∃ passed text, source.toList = passed ++ text ∧
      token.span.start = Position.origin.advancedBy passed ∧ token.IsLongestMatch text := by
  obtain ⟨before, behind, htokens⟩ := List.append_of_mem htoken
  obtain ⟨passed, c, rest, hsource, rfl, -⟩ := Scan.exists_first_of_tokens htokens hkind
  exact ⟨passed, c :: rest, hsource, rfl, Scan.isLongestMatch_first _ c rest⟩

/-- The points between two numbers are one token, though a number can go on behind a point and a point is a token of
its own. -/
theorem longest_match_of_points :
    ∃ passed text, "1..2".toList = passed ++ text ∧
      (⟨1, 1, 2⟩ : Position) = Position.origin.advancedBy passed ∧
      (⟨.operator .dotDot, "..", ⟨⟨1, 1, 2⟩, ⟨3, 1, 4⟩⟩⟩ : Token).IsLongestMatch text := by
  have htoken : ⟨.operator .dotDot, "..", ⟨⟨1, 1, 2⟩, ⟨3, 1, 4⟩⟩⟩ ∈ tokenize "1..2" := by
    decide +kernel
  exact token_longest_match htoken (by decide)

end ScriptSyntax
