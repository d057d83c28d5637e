import Mathlib.Data.List.Forall2
import ScriptSyntax.Proofs.Token.Spelling

/-!
Words: texts that are one token.  A blank or the end of the line after a word does not change how it is
read, so words that are laid out on lines are read back one by one: `shows_layout`.
-/

namespace ScriptSyntax

namespace TokenKind

/-- The kind of the first token of a text. -/
def ofWord (word : String) : TokenKind :=
  match word.toList with
  | [] => .endOfFile
  | c :: rest => (Scan.classify c rest).1

/-- The text is a single token of the kind. -/
def Writes (kind : TokenKind) (word : String) : Prop :=
  ∃ c rest, word.toList = c :: rest ∧ Scan.classify c rest = (kind, rest.length)

/-- The kind of the first of the words; at the end, the end of the file. -/
def ofWords : List String → TokenKind
  | [] => .endOfFile
  | word :: _ => ofWord word

/-- Tokens of the kind are no trivia, and nothing is wrong with them. -/
def IsSound (kind : TokenKind) : Prop :=
  kind.isTrivia = false ∧ ∀ e, kind ≠ .error e

theorem Writes.ofWord {kind : TokenKind} {word : String} (h : kind.Writes word) :
    TokenKind.ofWord word = kind := by
  obtain ⟨c, rest, hword, hkind⟩ := h
  rw [TokenKind.ofWord, hword]
  show (Scan.classify c rest).1 = kind
  rw [hkind]

theorem writes_of_spelling? {kind : TokenKind} {word : String} (h : kind.spelling? = some word) :
    kind.Writes word := by
  cases kind with
  | keyword k => cases k <;> cases h <;> exact ⟨_, _, rfl, by decide⟩
  | operator o => cases o <;> cases h <;> exact ⟨_, _, rfl, by decide⟩
  | semicolon => cases h; exact ⟨_, _, rfl, by decide⟩
  | leftBrace => cases h; exact ⟨_, _, rfl, by decide⟩
  | rightBrace => cases h; exact ⟨_, _, rfl, by decide⟩
  | leftBracket => cases h; exact ⟨_, _, rfl, by decide⟩
  | rightBracket => cases h; exact ⟨_, _, rfl, by decide⟩
  | leftParen => cases h; exact ⟨_, _, rfl, by decide⟩
  | rightParen => cases h; exact ⟨_, _, rfl, by decide⟩
  | comma => cases h; exact ⟨_, _, rfl, by decide⟩
  | colon => cases h; exact ⟨_, _, rfl, by decide⟩
  | dot => cases h; exact ⟨_, _, rfl, by decide⟩
  | _ => cases h

theorem isSound_of_spelling? {kind : TokenKind} {word : String} (h : kind.spelling? = some word) :
    kind.IsSound := by
  cases kind with
  | comment => cases h
  | whitespace => cases h
  | error e => cases h
  | _ => exact ⟨rfl, nofun⟩

theorem writes_newline : newline.Writes "\n" :=
  ⟨'\n', [], rfl, rfl⟩

end TokenKind

/-- The text is a single token that a parser looks at. -/
def IsWord (word : String) : Prop :=
  ∃ kind : TokenKind, kind.Writes word ∧ kind.IsSound

/-- The words begin with a token of a kind that has the property. -/
def BeginsWith (words : List String) (p : TokenKind → Prop) : Prop :=
  ∃ word rest, words = word :: rest ∧ p (TokenKind.ofWord word)

theorem beginsWith_spelled (kind : TokenKind) {words rest : List String} {text : String}
    {p : TokenKind → Prop} (hwords : words = text :: rest) (htext : kind.spelling? = some text)
    (hkind : p kind) : BeginsWith words p := by
  refine ⟨text, rest, hwords, ?_⟩
  rw [(TokenKind.writes_of_spelling? htext).ofWord]
  exact hkind

theorem BeginsWith.append {words : List String} {p : TokenKind → Prop} (h : BeginsWith words p)
    (after : List String) : BeginsWith (words ++ after) p := by
  obtain ⟨word, rest, rfl, hkind⟩ := h
  exact ⟨word, rest ++ after, rfl, hkind⟩

theorem BeginsWith.mono {words : List String} {p q : TokenKind → Prop} (h : BeginsWith words p)
    (hpq : ∀ kind, p kind → q kind) : BeginsWith words q := by
  obtain ⟨word, rest, hwords, hkind⟩ := h
  exact ⟨word, rest, hwords, hpq _ hkind⟩

theorem BeginsWith.ofWords {words : List String} {p : TokenKind → Prop} (h : BeginsWith words p) :
    p (TokenKind.ofWords words) := by
  obtain ⟨word, rest, rfl, hkind⟩ := h
  exact hkind

theorem ofWords_spelled {kind : TokenKind} {text : String} (h : kind.spelling? = some text)
    (rest : List String) : TokenKind.ofWords (text :: rest) = kind := by
  rw [TokenKind.ofWords, (TokenKind.writes_of_spelling? h).ofWord]

namespace Scan

/-- A text that ends a word before it: a blank or a newline comes next, or nothing. -/
def EndsWord (text : List Char) : Prop :=
  ∀ c ∈ text.head?, c = ' ' ∨ c = '\n'

theorem EndsWord.head_eq_false {text : List Char} {p : Char → Bool} (h : EndsWord text)
    (hblank : p ' ' = false) (hnewline : p '\n' = false) : ∀ c ∈ text.head?, p c = false := by
  intro c hc
  rcases h c hc with rfl | rfl
  · exact hblank
  · exact hnewline

theorem runLength_le (p : Char → Bool) (text : List Char) : runLength p text ≤ text.length :=
  (List.takeWhile_sublist p).length_le

theorem runLength_append {p : Char → Bool} {text after : List Char}
    (hstop : ∀ c ∈ after.head?, p c = false) :
    runLength p (text ++ after) = runLength p text := by
  unfold runLength
  induction text with
  | nil =>
      cases after with
      | nil => rfl
      | cons c after =>
          have hc : p c = false := hstop c rfl
          simp [hc]
  | cons c text ih =>
      by_cases hc : p c
      · simpa [hc] using ih
      · simp [hc]

theorem takeWhile_append {p : Char → Bool} {text after : List Char}
    (hstop : ∀ c ∈ after.head?, p c = false) :
    (text ++ after).takeWhile p = text.takeWhile p := by
  have hlength : runLength p (text ++ after) = runLength p text := runLength_append hstop
  rw [← take_runLength, ← take_runLength, hlength,
    List.take_append_of_le_length (runLength_le p text)]

theorem fractionLength_cons {c : Char} (hpoint : c ≠ '.') (rest : List Char) :
    fractionLength (c :: rest) = 0 := by
  unfold fractionLength
  split
  · rename_i hcons
    cases hcons
    exact absurd rfl hpoint
  · rfl

theorem fractionLength_append {text after : List Char} (h : EndsWord after) :
    fractionLength (text ++ after) = fractionLength text := by
  cases text with
  | nil =>
      cases after with
      | nil => rfl
      | cons c after =>
          rcases h c rfl with rfl | rfl
          · rfl
          · rfl
  | cons c digits =>
      by_cases hpoint : c = '.'
      · subst hpoint
        have hdigits : runLength Char.isDigit (digits ++ after) = runLength Char.isDigit digits :=
          runLength_append (h.head_eq_false rfl rfl)
        simp only [List.cons_append, fractionLength, hdigits]
      · rw [List.cons_append, fractionLength_cons hpoint, fractionLength_cons hpoint]

theorem numberLength_append {text after : List Char} (h : EndsWord after) :
    numberLength (text ++ after) = numberLength text := by
  have hdigits : runLength Char.isDigit (text ++ after) = runLength Char.isDigit text :=
    runLength_append (h.head_eq_false rfl rfl)
  have hle := runLength_le Char.isDigit text
  simp only [numberLength, hdigits]
  rw [List.drop_append_of_le_length hle, fractionLength_append h]

theorem stringLength_cons {quote c : Char} (rest : List Char) (hescape : c ≠ '\\') :
    stringLength quote (c :: rest) =
      if c = quote ∨ c = '\\' ∨ c = '\n' then 0 else stringLength quote rest + 1 := by
  rw [stringLength]
  rintro _ _ rfl
  exact absurd rfl hescape

theorem stringLength_append {quote : Char} {text after : List Char} (hquote : quote ≠ '\\')
    (hclosed : (text.drop (stringLength quote text)).head? = some quote) :
    stringLength quote (text ++ after) = stringLength quote text := by
  induction text using stringLength.induct quote with
  | case1 => simp at hclosed
  | case2 rest => simp [stringLength] at hclosed ⊢
  | case3 c rest hnewline ih =>
      simp only [List.cons_append, stringLength, if_neg hnewline] at hclosed ⊢
      rw [ih (by simpa using hclosed)]
  | case4 c rest hescape hstop =>
      have hlength : stringLength quote (c :: rest) = 0 := by
        rw [stringLength, if_pos hstop]
        exact hescape
      rw [hlength] at hclosed
      obtain rfl : c = quote := by simpa using hclosed
      rw [hlength, List.cons_append, stringLength_cons _ hquote, if_pos (.inl rfl)]
  | case5 c rest hescape hstop ih =>
      have hc : c ≠ '\\' := fun h => hstop (.inr (.inl h))
      rw [stringLength_cons _ hc, if_neg hstop] at hclosed
      rw [List.cons_append, stringLength_cons _ hc, stringLength_cons _ hc, if_neg hstop,
        if_neg hstop, ih (by simpa using hclosed)]

theorem string_append {quote : Char} {text after : List Char} (hquote : quote ≠ '\\')
    (hkind : (string quote text).1 = .string) :
    string quote (text ++ after) = string quote text := by
  unfold string at hkind ⊢
  simp only at hkind ⊢
  split at hkind
  · rename_i hclosed
    have hle : stringLength quote text ≤ text.length := by
      refine Nat.le_of_not_lt fun hlong => ?_
      rw [List.drop_eq_nil_of_le (by omega)] at hclosed
      cases hclosed
    have hbehind : ((text ++ after).drop (stringLength quote text)).head? = some quote := by
      rw [List.drop_append_of_le_length hle, List.head?_append, hclosed]
      rfl
    rw [stringLength_append hquote hclosed, if_pos hclosed, if_pos hbehind]
  · cases hkind

theorem symbol_append {text after : List Char} (h : EndsWord after) (c : Char) :
    symbol c (text ++ after) = symbol c text := by
  cases text with
  | nil =>
      cases after with
      | nil => rfl
      | cons d after =>
          have hpair : pairKind? c d = none := by
            rcases h d rfl with rfl | rfl
            all_goals
              unfold pairKind?
              split
              all_goals first | rfl | simp_all
          simp [symbol, hpair]
  | cons d text => rfl

theorem classify_append {c : Char} {text after : List Char} {kind : TokenKind}
    (hword : classify c text = (kind, text.length)) (hkind : kind.IsSound) (h : EndsWord after) :
    classify c (text ++ after) = (kind, text.length) := by
  obtain ⟨htrivia, hsound⟩ := hkind
  cases begins c with
  | spacing hread =>
      rw [hread] at hword
      obtain rfl : TokenKind.whitespace = kind := congrArg Prod.fst hword
      cases htrivia
  | newline hread =>
      rw [hread] at hword ⊢
      exact hword
  | slash hread =>
      rw [hread] at hword ⊢
      split at hword
      · obtain rfl : TokenKind.comment = kind := congrArg Prod.fst hword
        cases htrivia
      · rename_i hcomment
        have hbehind : (text ++ after).head? ≠ some '/' := by
          intro hslash
          cases text with
          | nil => exact absurd (h '/' hslash) (by decide)
          | cons d text => exact hcomment hslash
        rw [if_neg hbehind, symbol_append h]
        exact hword
  | word hread =>
      have hstop : ∀ d ∈ after.head?, isWordTail d = false :=
        h.head_eq_false (by decide) (by decide)
      rw [hread] at hword ⊢
      rw [takeWhile_append hstop, runLength_append hstop]
      exact hword
  | number hread =>
      rw [hread] at hword ⊢
      rw [numberLength_append h]
      exact hword
  | string hescape hread =>
      rw [hread] at hword ⊢
      rw [string_append hescape]
      · exact hword
      · rcases kind_string c text with hclosed | hopen
        · exact hclosed
        · rw [hword] at hopen
          exact absurd hopen (hsound _)
  | symbol hread =>
      rw [hread] at hword ⊢
      rw [symbol_append h]
      exact hword

end Scan

/-- Words with single blanks between those of a line.  The word `"\n"` ends its line. -/
def layout : List String → List Char
  | [] => []
  | [word] => word.toList
  | word :: next :: words =>
      if word = "\n" ∨ next = "\n" then word.toList ++ layout (next :: words)
      else word.toList ++ ' ' :: layout (next :: words)

/-- The slot is the word, with no comment before it. -/
structure Slot.Shows (slot : Slot) (word : String) : Prop where
  text : slot.token.text = word
  kind : slot.kind = TokenKind.ofWord word
  commentBefore : slot.commentBefore = none

namespace Scan

theorem significant_word {word : String} (hword : IsWord word) {after : List Char}
    (h : word = "\n" ∨ EndsWord after) (p : Position) :
    ∃ slot q, slot.Shows word ∧
      Slot.significant none (lexemes p (word.toList ++ after)) =
        slot :: Slot.significant none (lexemes q after) := by
  obtain ⟨kind, ⟨c, rest, hchars, hkind⟩, hsound⟩ := hword
  have hclass : classify c (rest ++ after) = (kind, rest.length) := by
    rcases h with rfl | h
    · obtain ⟨rfl, rfl⟩ : '\n' = c ∧ [] = rest := by simpa using hchars
      exact hkind
    · exact classify_append hkind hsound h
  have hfirst : (first p c (rest ++ after)).1.text = word ∧
      (first p c (rest ++ after)).1.kind = kind ∧ (first p c (rest ++ after)).2 = rest.length := by
    simp only [first, hclass, List.take_left]
    rw [← hchars, String.ofList_toList]
    simp
  obtain ⟨htext, htoken, hextra⟩ := hfirst
  refine ⟨⟨(first p c (rest ++ after)).1, none⟩, (first p c (rest ++ after)).1.span.stop,
    ⟨htext, ?_, rfl⟩, ?_⟩
  · show (first p c (rest ++ after)).1.kind = _
    rw [htoken, TokenKind.Writes.ofWord ⟨c, rest, hchars, hkind⟩]
  · rw [hchars, List.cons_append, lexemes_cons, hextra, List.drop_left,
      Slot.significant_token (by rw [htoken]; exact hsound.1)]

theorem significant_blank {word : String} (hword : IsWord word) (after : List Char) (p : Position) :
    ∃ q, Slot.significant none (lexemes p (' ' :: (word.toList ++ after))) =
      Slot.significant none (lexemes q (word.toList ++ after)) := by
  obtain ⟨kind, ⟨c, rest, hchars, hkind⟩, htrivia, -⟩ := hword
  have hspacing : isSpacing c = false := by
    cases hc : isSpacing c with
    | false => rfl
    | true =>
        rw [classify, if_pos hc] at hkind
        obtain rfl : TokenKind.whitespace = kind := congrArg Prod.fst hkind
        cases htrivia
  have hrun : runLength isSpacing (word.toList ++ after) = 0 := by
    simp [hchars, runLength, hspacing]
  have hclass : classify ' ' (word.toList ++ after) = (.whitespace, 0) := by
    have hblank : isSpacing ' ' = true := rfl
    rw [classify, if_pos hblank, hrun]
  refine ⟨(first p ' ' (word.toList ++ after)).1.span.stop, ?_⟩
  rw [lexemes_cons, Slot.significant_whitespace]
  · simp [first, hclass]
  · simp [first, hclass]

theorem significant_word_blank {word next : String} (hword : IsWord word) (hnext : IsWord next)
    (after : List Char) (p : Position) :
    ∃ slot q, slot.Shows word ∧
      Slot.significant none (lexemes p (word.toList ++ ' ' :: (next.toList ++ after))) =
        slot :: Slot.significant none (lexemes q (next.toList ++ after)) := by
  have hends : EndsWord (' ' :: (next.toList ++ after)) := by
    rintro c ⟨⟩
    exact .inl rfl
  obtain ⟨slot, q, hslot, hlexemes⟩ := significant_word hword (.inr hends) p
  obtain ⟨q', hblank⟩ := significant_blank hnext after q
  exact ⟨slot, q', hslot, by rw [hlexemes, hblank]⟩

theorem layout_newline (words : List String) : layout ("\n" :: words) = '\n' :: layout words := by
  cases words with
  | nil => rfl
  | cons next words =>
      rw [layout, if_pos (.inl rfl)]
      rfl

theorem shows_layout {words : List String} (hwords : ∀ word ∈ words, IsWord word) (p : Position) :
    List.Forall₂ Slot.Shows (Slot.significant none (lexemes p (layout words))) words := by
  induction words using layout.induct generalizing p with
  | case1 => exact .nil
  | case2 word =>
      have hends : word = "\n" ∨ EndsWord [] := .inr nofun
      obtain ⟨slot, q, hslot, hlexemes⟩ := significant_word (hwords word (by simp)) hends p
      rw [layout, ← List.append_nil word.toList, hlexemes]
      exact .cons hslot .nil
  | case3 word next words hline ih =>
      have hends : word = "\n" ∨ EndsWord (layout (next :: words)) := by
        rcases hline with hword | hnext
        · exact .inl hword
        · right
          rw [hnext, layout_newline]
          rintro c ⟨⟩
          exact .inr rfl
      obtain ⟨slot, q, hslot, hlexemes⟩ := significant_word (hwords word (by simp)) hends p
      rw [layout, if_pos hline, hlexemes]
      exact .cons hslot (ih (fun w hw => hwords w (List.mem_cons_of_mem _ hw)) q)
  | case4 word next words hline ih =>
      obtain ⟨after, hafter⟩ : ∃ after, layout (next :: words) = next.toList ++ after := by
        cases words with
        | nil => exact ⟨[], (List.append_nil _).symm⟩
        | cons last words =>
            rw [layout]
            split
            · exact ⟨_, rfl⟩
            · exact ⟨_, rfl⟩
      obtain ⟨slot, q, hslot, hlexemes⟩ := significant_word_blank (hwords word (by simp))
        (hwords next (by simp)) after p
      rw [layout, if_neg hline, hafter, hlexemes, ← hafter]
      exact .cons hslot (ih (fun w hw => hwords w (List.mem_cons_of_mem _ hw)) q)

end Scan

end ScriptSyntax
