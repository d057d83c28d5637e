import ScriptSyntax.Proofs.Token.Words
import ScriptSyntax.Token.Pattern

/-!
What patterns match.  The lengths that a pattern is tried with are those of the pieces in its language,
`Pattern.mem_lengths_iff`, and the first one is the longest where every choice prefers the longer piece,
`Pattern.Takes`.
-/

namespace ScriptSyntax

namespace CharClass

@[simp] theorem contains_of (chars : List Char) (c : Char) :
    (of chars).contains c = decide (c ∈ chars) := by
  have hrange : ∀ d : Char, (d ≤ c ∧ c ≤ d) ↔ c = d := fun d =>
    ⟨fun h => Char.le_antisymm h.2 h.1, fun h => h ▸ ⟨Char.le_refl _, Char.le_refl _⟩⟩
  simp [contains, of, hrange, List.any_eq]

@[simp] theorem contains_except (chars : List Char) (c : Char) :
    (except chars).contains c = decide (c ∉ chars) := by
  have hnegated : (except chars).contains c = !(of chars).contains c := by
    simp [contains, of, except]
  rw [hnegated, contains_of, decide_not]

@[simp] theorem contains_digit (c : Char) : digit.contains c = c.isDigit := by
  simp [contains, digit, Char.isDigit, Char.le_def]

theorem isAlpha_eq (c : Char) :
    c.isAlpha = (decide ('A'.val ≤ c.val ∧ c.val ≤ 'Z'.val) || ('a'.val ≤ c.val && c.val ≤ 'z'.val)) :=
  rfl

@[simp] theorem contains_letter (c : Char) : letter.contains c = c.isAlpha := by
  simp [contains, letter, isAlpha_eq, Char.le_def, Bool.or_comm]

@[simp] theorem contains_wordTail (c : Char) : wordTail.contains c = Scan.isWordTail c := by
  have hparts : wordTail.contains c = (letter.contains c || (digit.contains c || (of ['_']).contains c)) := by
    simp [contains, wordTail, letter, digit, of, Bool.or_assoc]
  rw [hparts, contains_letter, contains_digit, contains_of, Scan.isWordTail, Char.isAlphanum, Bool.or_assoc]
  simp
end CharClass

namespace Pattern

/-- The language of a pattern. -/
inductive Matches : Pattern → List Char → Prop
  | empty : Matches .empty []
  | one {cls : CharClass} {c : Char} (hc : cls.contains c) : Matches (.one cls) [c]
  | seq {first second : Pattern} {x y : List Char} (hfirst : Matches first x) (hsecond : Matches second y) :
      Matches (.seq first second) (x ++ y)
  | left {first second : Pattern} {x : List Char} (hfirst : Matches first x) :
      Matches (.either first second) x
  | right {first second : Pattern} {x : List Char} (hsecond : Matches second x) :
      Matches (.either first second) x
  | stop {item : Pattern} : Matches (.many item) []
  | round {item : Pattern} {x y : List Char} (hitem : Matches item x) (hrest : Matches (.many item) y) :
      Matches (.many item) (x ++ y)

variable {pattern first second item : Pattern} {text piece : List Char} {n : Nat}

/-- The item matches the pieces whose lengths are listed. -/
def Lists (item : Pattern) (lengths : List Char → List Nat) : Prop :=
  ∀ text n, n ∈ lengths text ↔ ∃ piece, piece <+: text ∧ piece.length = n ∧ item.Matches piece

theorem exists_of_mem_rounds {lengths : List Char → List Nat} (hitem : item.Lists lengths) {budget : Nat}
    (h : n ∈ rounds lengths budget text) :
    ∃ piece, piece <+: text ∧ piece.length = n ∧ (many item).Matches piece := by
  induction budget generalizing text n with
  | zero =>
      obtain rfl := List.mem_singleton.mp h
      exact ⟨[], List.nil_prefix, rfl, .stop⟩
  | succ budget ih =>
      rw [rounds, List.mem_append, List.mem_flatMap, List.mem_singleton] at h
      rcases h with ⟨k, hk, hmore⟩ | rfl
      · obtain ⟨x, ⟨rest, rfl⟩, rfl, hx⟩ := (hitem text k).mp (List.mem_of_mem_filter hk)
        rw [List.drop_left] at hmore
        obtain ⟨l, hl, rfl⟩ := List.mem_map.mp hmore
        obtain ⟨y, hy, rfl, hmany⟩ := ih hl
        exact ⟨x ++ y, (List.prefix_append_right_inj x).mpr hy, List.length_append, .round hx hmany⟩
      · exact ⟨[], List.nil_prefix, rfl, .stop⟩

theorem mem_rounds_of_matches {lengths : List Char → List Nat} (hitem : item.Lists lengths)
    (h : (many item).Matches piece) {budget : Nat} {rest : List Char}
    (hbudget : (piece ++ rest).length ≤ budget) : piece.length ∈ rounds lengths budget (piece ++ rest) := by
  generalize hpattern : many item = pattern at h
  induction h generalizing budget with
  | empty | one | seq | left | right => cases hpattern
  | stop =>
      cases budget with
      | zero => simp [rounds]
      | succ budget => simp [rounds]
  | @round item' x y hx hmore _ ih =>
      cases hpattern
      by_cases hempty : x = []
      · subst hempty
        exact ih hbudget rfl
      have hwidth : 0 < x.length := List.length_pos_of_ne_nil hempty
      obtain ⟨budget, rfl⟩ : ∃ below, budget = below + 1 := by
        refine ⟨budget - 1, ?_⟩
        simp only [List.length_append] at hbudget
        omega
      have hround : x.length ∈ lengths (x ++ (y ++ rest)) := (hitem _ _).mpr ⟨x, List.prefix_append _ _, rfl, hx⟩
      have hlater : y.length ∈ rounds lengths budget (y ++ rest) := by
        apply ih _ rfl
        simp only [List.length_append] at hbudget ⊢
        omega
      rw [rounds, List.append_assoc, List.mem_append, List.mem_flatMap]
      refine .inl ⟨x.length, List.mem_filter.mpr ⟨hround, decide_eq_true hwidth⟩, ?_⟩
      rw [List.drop_left, List.length_append]
      exact List.mem_map.mpr ⟨y.length, hlater, rfl⟩

theorem mem_lengths_iff :
    n ∈ pattern.lengths text ↔ ∃ piece, piece <+: text ∧ piece.length = n ∧ pattern.Matches piece := by
  induction pattern generalizing text n with
  | empty =>
      constructor
      · intro h
        obtain rfl := List.mem_singleton.mp h
        exact ⟨[], List.nil_prefix, rfl, .empty⟩
      · rintro ⟨_, -, rfl, ⟨⟩⟩
        exact List.mem_singleton_self 0
  | one cls =>
      rw [lengths]
      constructor
      · intro h
        cases text with
        | nil => cases h
        | cons c rest =>
            split at h
            · rename_i hc
              obtain rfl := List.mem_singleton.mp h
              exact ⟨[c], ⟨rest, rfl⟩, rfl, .one hc⟩
            · cases h
      · rintro ⟨_, ⟨rest, rfl⟩, rfl, hmatch⟩
        cases hmatch with
        | one hc => simp [hc]
  | seq first second ihfirst ihsecond =>
      rw [lengths, List.mem_flatMap]
      constructor
      · rintro ⟨k, hk, hmore⟩
        obtain ⟨x, ⟨rest, rfl⟩, rfl, hx⟩ := ihfirst.mp hk
        rw [List.drop_left] at hmore
        obtain ⟨l, hl, rfl⟩ := List.mem_map.mp hmore
        obtain ⟨y, hy, rfl, hmatch⟩ := ihsecond.mp hl
        exact ⟨x ++ y, (List.prefix_append_right_inj x).mpr hy, List.length_append, .seq hx hmatch⟩
      · rintro ⟨_, ⟨rest, rfl⟩, rfl, hmatch⟩
        cases hmatch with
        | @seq _ _ x y hx hy =>
            rw [List.append_assoc]
            refine ⟨x.length, ihfirst.mpr ⟨x, List.prefix_append _ _, rfl, hx⟩, ?_⟩
            rw [List.drop_left, List.length_append]
            exact List.mem_map.mpr ⟨y.length, ihsecond.mpr ⟨y, List.prefix_append _ _, rfl, hy⟩, rfl⟩
  | either first second ihfirst ihsecond =>
      rw [lengths, List.mem_append, ihfirst, ihsecond]
      constructor
      · rintro (⟨piece, hpiece, hlength, hmatch⟩ | ⟨piece, hpiece, hlength, hmatch⟩)
        · exact ⟨piece, hpiece, hlength, .left hmatch⟩
        · exact ⟨piece, hpiece, hlength, .right hmatch⟩
      · rintro ⟨piece, hpiece, hlength, hmatch⟩
        cases hmatch with
        | left hfirst => exact .inl ⟨piece, hpiece, hlength, hfirst⟩
        | right hsecond => exact .inr ⟨piece, hpiece, hlength, hsecond⟩
  | many item ih =>
      have hitem : item.Lists item.lengths := fun _ _ => ih
      constructor
      · exact exists_of_mem_rounds hitem
      · rintro ⟨piece, ⟨rest, rfl⟩, rfl, hmatch⟩
        exact mem_rounds_of_matches hitem hmatch (Nat.le_refl _)

theorem le_of_mem_lengths (h : n ∈ pattern.lengths text) : n ≤ text.length := by
  obtain ⟨piece, hpiece, rfl, -⟩ := mem_lengths_iff.mp h
  exact hpiece.length_le

/-! ### The first match -/

/-- What the pattern takes of the text: the first length that it is tried with.  No other one is longer. -/
structure Takes (pattern : Pattern) (text : List Char) (length? : Option Nat) : Prop where
  head : (pattern.lengths text).head? = length?
  le : ∀ m ∈ pattern.lengths text, ∀ n ∈ length?, m ≤ n

theorem takes_of_singleton (h : pattern.lengths text = [n]) : pattern.Takes text (some n) := by
  constructor
  · rw [h]
    rfl
  · rintro m hm _ ⟨⟩
    rw [h] at hm
    exact Nat.le_of_eq (List.mem_singleton.mp hm)

theorem takes_of_nil (h : pattern.lengths text = []) : pattern.Takes text none := by
  constructor
  · rw [h]
    rfl
  · rintro m - n ⟨⟩

theorem Takes.eq_nil (h : pattern.Takes text none) : pattern.lengths text = [] :=
  List.head?_eq_none_iff.mp h.head

theorem takes_empty : empty.Takes text (some 0) :=
  takes_of_singleton rfl

theorem lengths_one_cons (cls : CharClass) (c : Char) (rest : List Char) :
    (one cls).lengths (c :: rest) = if cls.contains c then [1] else [] := rfl

theorem takes_one (cls : CharClass) (c : Char) (rest : List Char) :
    (one cls).Takes (c :: rest) (if cls.contains c then some 1 else none) := by
  split
  · rename_i hc
    apply takes_of_singleton
    rw [lengths_one_cons, if_pos hc]
  · rename_i hc
    apply takes_of_nil
    rw [lengths_one_cons, if_neg hc]

theorem takes_one_seq {cls : CharClass} {c : Char} {rest : List Char} {length? : Option Nat}
    (h : second.Takes rest length?) :
    (seq (one cls) second).Takes (c :: rest) (if cls.contains c then length?.map (1 + ·) else none) := by
  split
  · rename_i hc
    have hlengths : (seq (one cls) second).lengths (c :: rest) = (second.lengths rest).map (1 + ·) := by
      rw [lengths, lengths_one_cons, if_pos hc, List.flatMap_singleton]
      rfl
    constructor
    · rw [hlengths, List.head?_map, h.head]
    · rw [hlengths]
      intro m hm n hn
      obtain ⟨k, hk, rfl⟩ := List.mem_map.mp hm
      obtain ⟨l, hl, rfl⟩ := Option.map_eq_some_iff.mp hn
      exact Nat.add_le_add_left (h.le k hk l hl) 1
  · rename_i hc
    apply takes_of_nil
    rw [lengths, lengths_one_cons, if_neg hc, List.flatMap_nil]

theorem takes_char_seq {c d : Char} {rest : List Char} {length? : Option Nat}
    (h : second.Takes rest length?) :
    (seq (one (.of [d])) second).Takes (c :: rest) (if c = d then length?.map (1 + ·) else none) := by
  have htakes : (seq (one (.of [d])) second).Takes (c :: rest) _ := takes_one_seq h
  simpa using htakes

theorem takes_exactly (chars text : List Char) :
    (exactly chars).Takes text (if chars.isPrefixOf text then some chars.length else none) := by
  induction chars generalizing text with
  | nil => exact takes_empty
  | cons d chars ih =>
      cases text with
      | nil => exact takes_of_nil rfl
      | cons c rest =>
          have htakes : (exactly (d :: chars)).Takes (c :: rest) _ := takes_char_seq (ih rest)
          rw [List.isPrefixOf_cons_cons]
          by_cases hc : c = d
          · subst hc
            rw [if_pos rfl] at htakes
            rw [beq_self_eq_true, Bool.true_and]
            split
            · rename_i hrest
              rw [if_pos hrest] at htakes
              rw [List.length_cons, Nat.add_comm]
              exact htakes
            · rename_i hrest
              rw [if_neg hrest] at htakes
              exact htakes
          · rw [if_neg hc] at htakes
            rw [beq_eq_false_iff_ne.mpr (Ne.symm hc), Bool.false_and, if_neg Bool.false_ne_true]
            exact htakes

/-- The rest of a sequence is read behind the longest piece that its first part matches, if no shorter one
leads further. -/
theorem takes_seq {k : Nat} (hfirst : first.Takes text (some n)) (hsecond : second.Takes (text.drop n) (some k))
    (hshorter : ∀ m ∈ first.lengths text, ∀ l ∈ second.lengths (text.drop m), m + l ≤ n + k) :
    (seq first second).Takes text (some (n + k)) := by
  constructor
  · obtain ⟨others, hlengths⟩ := List.head?_eq_some_iff.mp hfirst.head
    rw [lengths, hlengths, List.flatMap_cons, List.head?_append, List.head?_map, hsecond.head]
    rfl
  · rintro m hm _ ⟨⟩
    obtain ⟨i, hi, hmore⟩ := List.mem_flatMap.mp hm
    obtain ⟨l, hl, rfl⟩ := List.mem_map.mp hmore
    exact hshorter i hi l hl

theorem takes_perhaps {length? : Option Nat} (h : item.Takes text length?) :
    (perhaps item).Takes text (some (length?.getD 0)) := by
  have hlengths : (perhaps item).lengths text = item.lengths text ++ [0] := rfl
  constructor
  · rw [hlengths, List.head?_append, h.head]
    cases length? with
    | none => rfl
    | some n => rfl
  · rintro m hm _ ⟨⟩
    rw [hlengths, List.mem_append, List.mem_singleton] at hm
    rcases hm with hm | rfl
    · cases length? with
      | none =>
          rw [h.eq_nil] at hm
          cases hm
      | some n => exact h.le m hm n rfl
    · exact Nat.zero_le _

theorem rounds_of_nil {lengths : List Char → List Nat} (h : lengths text = []) (budget : Nat) :
    rounds lengths budget text = [0] := by
  cases budget with
  | zero => rfl
  | succ budget =>
      rw [rounds, h]
      rfl

theorem rounds_of_singleton {lengths : List Char → List Nat} (h : lengths text = [n]) (hn : 0 < n)
    (budget : Nat) :
    rounds lengths (budget + 1) text = (rounds lengths budget (text.drop n)).map (n + ·) ++ [0] := by
  simp only [rounds, h, List.filter_singleton, decide_eq_true hn, cond_true, List.flatMap_singleton]

/-- The item matches in one way at most, and its rounds lead as far as `extent` says. -/
def Walks (item : Pattern) (extent : List Char → Nat) : Prop :=
  ∀ text, item.lengths text = [] ∧ extent text = 0 ∨
    ∃ k, 0 < k ∧ item.lengths text = [k] ∧ extent text = k + extent (text.drop k)

theorem Walks.rounds {extent : List Char → Nat} (h : item.Walks extent) {budget : Nat}
    (hbudget : text.length ≤ budget) :
    (rounds item.lengths budget text).head? = some (extent text) ∧
      ∀ m ∈ rounds item.lengths budget text, m ≤ extent text ∧
        (m = extent text ∨ item.lengths (text.drop m) ≠ []) := by
  induction budget generalizing text with
  | zero =>
      obtain rfl := List.eq_nil_of_length_eq_zero (Nat.le_zero.mp hbudget)
      rcases h [] with ⟨-, hextent⟩ | ⟨k, hk, hitem, -⟩
      · rw [hextent]
        refine ⟨rfl, fun m hm => ?_⟩
        obtain rfl := List.mem_singleton.mp hm
        exact ⟨Nat.le_refl _, .inl rfl⟩
      · have hle : k ≤ ([] : List Char).length := le_of_mem_lengths (by rw [hitem]; exact List.mem_singleton_self k)
        exact absurd hk (Nat.not_lt.mpr hle)
  | succ budget ih =>
      rcases h text with ⟨hitem, hextent⟩ | ⟨k, hk, hitem, hextent⟩
      · rw [rounds_of_nil hitem, hextent]
        refine ⟨rfl, fun m hm => ?_⟩
        obtain rfl := List.mem_singleton.mp hm
        exact ⟨Nat.le_refl _, .inl rfl⟩
      · have hlater : (text.drop k).length ≤ budget := by
          rw [List.length_drop]
          omega
        obtain ⟨hhead, hle⟩ := ih hlater
        rw [rounds_of_singleton hitem hk, hextent]
        constructor
        · rw [List.head?_append, List.head?_map, hhead]
          rfl
        · intro m hm
          rw [List.mem_append, List.mem_map, List.mem_singleton] at hm
          rcases hm with ⟨l, hl, rfl⟩ | rfl
          · obtain ⟨hbound, hstop⟩ := hle l hl
            rw [← List.drop_drop, Nat.add_right_inj]
            exact ⟨Nat.add_le_add_left hbound k, hstop⟩
          · refine ⟨Nat.zero_le _, .inr ?_⟩
            rw [List.drop_zero, hitem]
            exact List.cons_ne_nil _ _

/-- The first try takes all the rounds, and any other try ends where there is one more. -/
theorem Walks.many {extent : List Char → Nat} (h : item.Walks extent) (text : List Char) :
    (many item).Takes text (some (extent text)) ∧
      ∀ m ∈ (many item).lengths text, m = extent text ∨ item.lengths (text.drop m) ≠ [] := by
  obtain ⟨hhead, hle⟩ := h.rounds (Nat.le_refl text.length)
  refine ⟨⟨hhead, ?_⟩, fun m hm => (hle m hm).2⟩
  rintro m hm _ ⟨⟩
  exact (hle m hm).1

theorem runLength_cons (p : Char → Bool) (c : Char) (rest : List Char) :
    Scan.runLength p (c :: rest) = if p c then 1 + Scan.runLength p rest else 0 := by
  rw [Scan.runLength, List.takeWhile_cons]
  split
  · rw [List.length_cons, Nat.add_comm]
    rfl
  · rfl

theorem walks_one (cls : CharClass) : (one cls).Walks (Scan.runLength cls.contains) := by
  intro text
  cases text with
  | nil => exact .inl ⟨rfl, rfl⟩
  | cons c rest =>
      rw [runLength_cons, lengths_one_cons]
      by_cases hc : cls.contains c
      · rw [if_pos hc, if_pos hc]
        exact .inr ⟨1, Nat.one_pos, rfl, rfl⟩
      · rw [if_neg hc, if_neg hc]
        exact .inl ⟨rfl, rfl⟩

theorem takes_run (cls : CharClass) (text : List Char) :
    (many (one cls)).Takes text (some (Scan.runLength cls.contains text)) :=
  ((walks_one cls).many text).1

theorem takes_plus (cls : CharClass) (c : Char) (rest : List Char) :
    (plus cls).Takes (c :: rest)
      (if cls.contains c then some (1 + Scan.runLength cls.contains rest) else none) :=
  takes_one_seq (takes_run cls rest)

theorem takes_plus_run (cls : CharClass) (text : List Char) :
    (plus cls).Takes text ((some (Scan.runLength cls.contains text)).filter (0 < ·)) := by
  cases text with
  | nil => exact takes_of_nil rfl
  | cons c rest =>
      have htakes : (plus cls).Takes (c :: rest) _ := takes_plus cls c rest
      rw [runLength_cons]
      by_cases hc : cls.contains c
      · rw [if_pos hc] at htakes ⊢
        rw [Option.filter_some, if_pos (decide_eq_true (by omega))]
        exact htakes
      · rw [if_neg hc] at htakes ⊢
        exact htakes

end Pattern

end ScriptSyntax
