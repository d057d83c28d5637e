import ScriptSyntax.Proofs.Token.Alone

/-!
Texts that begin alike.  A token looks at the character behind its end and, where that is a point or a
backslash, at one more: `classify_known`.  Two texts are read as the same tokens up to two characters before the
place where they differ, `exists_cut_lexemes`.
-/

namespace ScriptSyntax.Scan

section
variable {known x y : List Char}

/-- Behind its first `taken` characters the known part of a text shows one more, and behind a point or a
backslash another one. -/
structure Ahead (known : List Char) (taken : Nat) : Prop where
  next : taken < known.length
  further : ∀ c ∈ known[taken]?, c = '.' ∨ c = '\\' → taken + 1 < known.length

theorem Ahead.of_le {taken : Nat} (h : taken + 2 ≤ known.length) : Ahead known taken :=
  ⟨Nat.lt_of_succ_lt h, fun _ _ _ => h⟩

theorem Ahead.drop {count taken : Nat} (h : Ahead known (count + taken)) :
    Ahead (known.drop count) taken := by
  have hnext := h.next
  refine ⟨?_, fun c hc hlong => ?_⟩
  · rw [List.length_drop]
    omega
  · rw [List.getElem?_drop] at hc
    have hfurther := h.further c hc hlong
    rw [List.length_drop]
    omega

theorem takeWhile_known {p : Char → Bool} (h : runLength p (known ++ x) < known.length) :
    (known ++ y).takeWhile p = (known ++ x).takeWhile p := by
  induction known with
  | nil => exact absurd h (Nat.not_lt_zero _)
  | cons c known ih =>
      by_cases hc : p c
      · have hrest : runLength p (known ++ x) < known.length := by
          simpa [runLength, hc] using h
        simp [hc, ih hrest]
      · simp [hc]

theorem runLength_known {p : Char → Bool} (h : runLength p (known ++ x) < known.length) :
    runLength p (known ++ y) = runLength p (known ++ x) :=
  congrArg List.length (takeWhile_known h)

theorem fractionLength_known (h : Ahead known (fractionLength (known ++ x))) :
    fractionLength (known ++ y) = fractionLength (known ++ x) := by
  cases known with
  | nil => exact absurd h.next (Nat.not_lt_zero _)
  | cons c digits =>
      by_cases hpoint : c = '.'
      · subst hpoint
        have hdigits : runLength Char.isDigit (digits ++ x) < digits.length := by
          rw [List.cons_append, fractionLength] at h
          split at h
          · -- the point is not part of the number, and what stands behind it is known
            rename_i hnone
            rw [hnone]
            exact Nat.lt_of_succ_lt_succ (h.further '.' rfl (.inl rfl))
          · have hnext := h.next
            rw [List.length_cons] at hnext
            omega
        rw [List.cons_append, List.cons_append, fractionLength, fractionLength,
          runLength_known hdigits]
      · rw [List.cons_append, List.cons_append, fractionLength_cons hpoint, fractionLength_cons hpoint]

theorem numberLength_known (h : Ahead known (numberLength (known ++ x))) :
    numberLength (known ++ y) = numberLength (known ++ x) := by
  rw [numberLength_eq] at h
  have hdigits : runLength Char.isDigit (known ++ x) < known.length :=
    Nat.lt_of_le_of_lt (Nat.le_add_right _ _) h.next
  have hdrop : ∀ after, (known ++ after).drop (runLength Char.isDigit (known ++ x)) =
      known.drop (runLength Char.isDigit (known ++ x)) ++ after :=
    fun after => List.drop_append_of_le_length (Nat.le_of_lt hdigits)
  rw [hdrop] at h
  rw [numberLength_eq, numberLength_eq, runLength_known hdigits, hdrop, hdrop,
    fractionLength_known h.drop]

theorem stringLength_known {quote : Char} (h : Ahead known (stringLength quote (known ++ x))) :
    stringLength quote (known ++ y) = stringLength quote (known ++ x) := by
  induction known using stringLength.induct quote with
  | case1 => exact absurd h.next (Nat.not_lt_zero _)
  | case2 rest => rfl
  | case3 c rest hnewline ih =>
      simp only [List.cons_append, stringLength, if_neg hnewline] at h ⊢
      rw [Nat.add_comm] at h
      have hrest := h.drop
      rw [ih hrest]
  | case4 c rest hescape hstop =>
      by_cases hc : c = '\\'
      · cases rest with
        | nil =>
            subst hc
            have hnext := h.next
            have hzero : stringLength quote (['\\'] ++ x) = 0 := Nat.lt_one_iff.mp hnext
            rw [hzero] at h
            exact absurd (h.further '\\' rfl (.inr rfl)) (Nat.lt_irrefl 1)
        | cons next after => exact absurd rfl (hescape next after hc)
      · rw [List.cons_append, List.cons_append, stringLength_cons _ hc, stringLength_cons _ hc,
          if_pos hstop, if_pos hstop]
  | case5 c rest hescape hstop ih =>
      have hc : c ≠ '\\' := fun h => hstop (.inr (.inl h))
      rw [List.cons_append, stringLength_cons _ hc, if_neg hstop, Nat.add_comm] at h
      have hrest := h.drop
      rw [List.cons_append, List.cons_append, stringLength_cons _ hc, stringLength_cons _ hc,
        if_neg hstop, if_neg hstop, ih hrest]

theorem string_known {quote : Char} (h : Ahead known (string quote (known ++ x)).2) :
    string quote (known ++ y) = string quote (known ++ x) := by
  have hlong : Ahead known (stringLength quote (known ++ x)) := by
    unfold string at h
    simp only at h
    split at h
    · exact .of_le h.next
    · exact h
  have hshort := hlong.next
  have hlength : stringLength quote (known ++ y) = stringLength quote (known ++ x) :=
    stringLength_known hlong
  have hhead : ∀ after, ((known ++ after).drop (stringLength quote (known ++ x))).head? =
      (known.drop (stringLength quote (known ++ x))).head? := by
    intro after
    rw [List.head?_drop, List.head?_drop, List.getElem?_append_left hshort]
  simp only [string, hlength, hhead]

theorem symbol_known (c : Char) (h : known ≠ []) : symbol c (known ++ y) = symbol c (known ++ x) := by
  cases known with
  | nil => exact absurd rfl h
  | cons d known => rfl

theorem head?_known (h : known ≠ []) : (known ++ y).head? = (known ++ x).head? := by
  cases known with
  | nil => exact absurd rfl h
  | cons d known => rfl

/-- A token is read alike in texts that are the same as far as it looks behind its end. -/
theorem classify_known {c : Char} (h : Ahead known (classify c (known ++ x)).2) :
    classify c (known ++ y) = classify c (known ++ x) := by
  have hne : known ≠ [] := List.ne_nil_of_length_pos (Nat.zero_lt_of_lt h.next)
  cases begins c with
  | spacing hread =>
      rw [hread] at h
      rw [hread, hread, runLength_known h.next]
  | newline hread => rw [hread, hread]
  | slash hread =>
      rw [hread] at h
      rw [hread, hread, head?_known (x := x) hne]
      split at h
      · rename_i hcomment
        rw [if_pos hcomment, if_pos hcomment, runLength_known h.next]
      · rename_i hcomment
        rw [if_neg hcomment, if_neg hcomment, symbol_known c hne]
  | word hread =>
      rw [hread] at h
      rw [hread, hread, takeWhile_known h.next, runLength_known h.next]
  | number hread =>
      rw [hread] at h
      rw [hread, hread, numberLength_known h]
  | string _ hread =>
      rw [hread] at h
      rw [hread, hread, string_known h]
  | symbol hread => rw [hread, hread, symbol_known c hne]

theorem kind_known {P : TokenKind → Prop} {c : Char} (hnumber : P .number) (hstring : P .string)
    (herror : P (.error .unterminatedString)) (h : (classify c (known ++ x)).2 < known.length)
    (hx : P (classify c (known ++ x)).1) : P (classify c (known ++ y)).1 := by
  have hne : known ≠ [] := by
    rintro rfl
    cases h
  cases begins c with
  | spacing hread | newline hread =>
      rw [hread] at hx ⊢
      exact hx
  | slash hread =>
      rw [hread] at hx ⊢
      rw [head?_known (x := x) hne]
      split at hx
      · rename_i hcomment
        rw [if_pos hcomment]
        exact hx
      · rename_i hcomment
        rw [if_neg hcomment, symbol_known c hne]
        exact hx
  | word hread =>
      rw [hread] at h hx ⊢
      rw [takeWhile_known h]
      exact hx
  | number hread =>
      rw [hread]
      exact hnumber
  | string _ hread =>
      rw [hread]
      rcases kind_string c (known ++ y) with hkind | hkind
      · rw [hkind]
        exact hstring
      · rw [hkind]
        exact herror
  | symbol hread =>
      rw [hread] at hx ⊢
      rw [symbol_known c hne]
      exact hx

theorem first_known (p : Position) {c : Char} (h : Ahead known (classify c (known ++ x)).2) :
    first p c (known ++ y) = first p c (known ++ x) := by
  have hlength : (classify c (known ++ x)).2 ≤ known.length := Nat.le_of_lt h.next
  simp only [first, classify_known h, List.take_append_of_le_length hlength]

theorem lexemes_known (p : Position) {c : Char} (h : Ahead known (classify c (known ++ x)).2)
    (y : List Char) :
    lexemes p (c :: (known ++ y)) = (first p c (known ++ x)).1 ::
      lexemes (first p c (known ++ x)).1.span.stop (known.drop (first p c (known ++ x)).2 ++ y) := by
  have hfirst : first p c (known ++ y) = first p c (known ++ x) := first_known p h
  have hdrop : (known ++ y).drop (first p c (known ++ x)).2 =
      known.drop (first p c (known ++ x)).2 ++ y :=
    List.drop_append_of_le_length (Nat.le_of_lt h.next)
  rw [lexemes_cons, hfirst, hdrop]

end

theorem extra_lt_length {known x : List Char} {p : Position} {c : Char}
    (h : (first p c (known ++ x)).1.span.stop.offset < (p.advancedBy (c :: known)).offset) :
    (classify c (known ++ x)).2 < known.length := by
  by_contra hmore
  have htaken : (known ++ x).take (classify c (known ++ x)).2 =
      known ++ x.take ((classify c (known ++ x)).2 - known.length) := by
    rw [List.take_append, List.take_of_length_le (Nat.le_of_not_lt hmore)]
  simp only [first, htaken, Text.advancedBy_offset, Text.byteLength_cons,
    Text.byteLength_append] at h
  omega

/-- A text is cut where one of its tokens begins.  What is read before the cut stays the same when the text
behind it is changed from its third character on. -/
theorem exists_cut_lexemes {p : Position} {text : List Char} {passed rest : List Token} {token : Token}
    (h : lexemes p text = passed ++ token :: rest) :
    ∃ before behind, text = before ++ behind ∧ p.advancedBy before = token.span.start ∧
      lexemes token.span.start behind = token :: rest ∧
      ∀ known x y, behind = known ++ x → 2 ≤ known.length →
        lexemes p (before ++ (known ++ y)) = passed ++ lexemes token.span.start (known ++ y) := by
  induction passed generalizing p text with
  | nil =>
      cases text with
      | nil => cases h
      | cons c text =>
          have hstart : token.span.start = p := by
            rw [lexemes_cons] at h
            obtain ⟨rfl, -⟩ := List.cons.inj h
            rfl
          refine ⟨[], c :: text, rfl, hstart.symm, ?_, ?_⟩
          · rw [hstart]
            exact h
          · intro known x y _ _
            rw [hstart]
            rfl
  | cons earlier passed ih =>
      cases text with
      | nil => cases h
      | cons c text =>
          rw [lexemes_cons] at h
          obtain ⟨rfl, hrest⟩ := List.cons.inj h
          obtain ⟨before, behind, htext, hstart, hbehind, hsame⟩ := ih hrest
          have hle : (first p c text).2 ≤ text.length := classify_le c text
          have hcut : text = text.take (first p c text).2 ++ (before ++ behind) := by
            rw [← htext, List.take_append_drop]
          refine ⟨c :: text.take (first p c text).2 ++ before, behind, ?_, ?_, hbehind, ?_⟩
          · rw [List.cons_append, List.cons_append, List.append_assoc, ← hcut]
          · rw [Position.advancedBy_append]
            exact hstart
          · -- the first token ends before the cut, so all that it can look at is known
            intro known x y hknown hlong
            let taken := text.take (first p c text).2
            have hlength : taken.length = (first p c text).2 := by
              rw [List.length_take, Nat.min_eq_left hle]
            have htaken : text = taken ++ (before ++ known) ++ x := by
              rw [hknown] at hcut
              simpa using hcut
            have hahead : Ahead (taken ++ (before ++ known))
                (classify c (taken ++ (before ++ known) ++ x)).2 := by
              refine .of_le ?_
              rw [← htaken, List.length_append, List.length_append, hlength]
              show (first p c text).2 + 2 ≤ _
              omega
            have hshape : c :: taken ++ before ++ (known ++ y) =
                c :: (taken ++ (before ++ known) ++ y) := by
              simp
            rw [hshape, lexemes_known p hahead y, ← htaken, List.drop_left' hlength, List.append_assoc,
              hsame known x y hknown hlong, List.cons_append]

theorem exists_known_lexemes {p : Position} {same x : List Char} {passed rest : List Token} {token : Token}
    (h : lexemes p (same ++ x) = passed ++ token :: rest)
    (hstop : token.span.stop.offset < (p.advancedBy same).offset) :
    ∃ before c known, same = before ++ c :: known ∧ p.advancedBy before = token.span.start ∧
      lexemes token.span.start (c :: (known ++ x)) = token :: rest ∧
      (classify c (known ++ x)).2 < known.length ∧
      ∀ y, lexemes p (same ++ y) = passed ++ lexemes token.span.start (c :: (known ++ y)) := by
  obtain ⟨before, behind, htext, hstart, hbehind, hsame⟩ := exists_cut_lexemes h
  have hrun := run_lexemes token.span.start behind
  rw [hbehind] at hrun
  have hwidth := hrun.width
  obtain ⟨known, rfl, rfl⟩ : ∃ known, same = before ++ known ∧ behind = known ++ x := by
    rcases List.append_eq_append_iff.mp htext.symm with hshort | ⟨more, rfl, -⟩
    · exact hshort
    · rw [Position.advancedBy_append] at hstart
      have hoffset := congrArg Position.offset hstart
      rw [Text.advancedBy_offset] at hoffset
      omega
  rw [Position.advancedBy_append, hstart] at hstop
  cases known with
  | nil => exact absurd hstop (by simpa using Nat.le_of_lt hwidth)
  | cons c known =>
      have htoken : (first token.span.start c (known ++ x)).1 = token := by
        rw [List.cons_append, lexemes_cons] at hbehind
        exact (List.cons.inj hbehind).1
      have hextra : (classify c (known ++ x)).2 < known.length :=
        extra_lt_length (p := token.span.start) (by rw [htoken]; exact hstop)
      refine ⟨before, c, known, rfl, hstart, hbehind, hextra, fun y => ?_⟩
      rw [List.append_assoc, hsame (c :: known) x y rfl (by rw [List.length_cons]; omega)]
      rfl

end ScriptSyntax.Scan
