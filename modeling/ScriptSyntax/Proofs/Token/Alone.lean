import Mathlib.Data.List.TakeWhile
import ScriptSyntax.Proofs.Token.Words

/-!
Texts that are cut.  No token looks behind its own end but to see that it ends there, so a text that is cut
behind some of its tokens has these tokens, `lexemes_flatMap`, and one that is a token is read as the same token
when it stands alone.
-/

namespace ScriptSyntax

namespace Scan

theorem takeWhile_take {p : Char → Bool} {text : List Char} {count : Nat}
    (h : runLength p text ≤ count) : (text.take count).takeWhile p = text.takeWhile p := by
  induction text generalizing count with
  | nil => simp
  | cons c text ih =>
      by_cases hc : p c
      · have hcount : runLength p text + 1 ≤ count := by simpa [runLength, hc] using h
        obtain ⟨count, rfl⟩ : ∃ below, count = below + 1 := ⟨count - 1, by omega⟩
        rw [List.take_succ_cons, List.takeWhile_cons_of_pos hc, List.takeWhile_cons_of_pos hc,
          ih (by omega)]
      · cases count with
        | zero => simp [hc]
        | succ count => simp [hc]

theorem runLength_take {p : Char → Bool} {text : List Char} {count : Nat}
    (h : runLength p text ≤ count) : runLength p (text.take count) = runLength p text :=
  congrArg List.length (takeWhile_take h)

theorem fractionLength_le (text : List Char) : fractionLength text ≤ text.length := by
  unfold fractionLength
  split
  · rename_i digits
    have hle := runLength_le Char.isDigit digits
    split
    · exact Nat.zero_le _
    · rw [List.length_cons]
      omega
  · exact Nat.zero_le _

theorem fractionLength_take {text : List Char} {count : Nat} (h : fractionLength text ≤ count) :
    fractionLength (text.take count) = fractionLength text := by
  cases text with
  | nil => simp
  | cons c text =>
      cases count with
      | zero => exact (Nat.eq_zero_of_le_zero h).symm
      | succ count =>
          rw [List.take_succ_cons]
          by_cases hpoint : c = '.'
          · subst hpoint
            have hdigits : runLength Char.isDigit text ≤ count := by
              rw [fractionLength] at h
              split at h
              · rename_i hnone
                rw [hnone]
                exact Nat.zero_le _
              · omega
            rw [fractionLength, fractionLength, runLength_take hdigits]
          · rw [fractionLength_cons hpoint, fractionLength_cons hpoint]

theorem numberLength_eq (rest : List Char) :
    numberLength rest =
      runLength Char.isDigit rest + fractionLength (rest.drop (runLength Char.isDigit rest)) := rfl

theorem numberLength_le (rest : List Char) : numberLength rest ≤ rest.length := by
  have hdigits := runLength_le Char.isDigit rest
  have hfraction := fractionLength_le (rest.drop (runLength Char.isDigit rest))
  rw [List.length_drop] at hfraction
  rw [numberLength_eq]
  omega

theorem numberLength_take {rest : List Char} {count : Nat} (h : numberLength rest ≤ count) :
    numberLength (rest.take count) = numberLength rest := by
  rw [numberLength_eq] at h
  rw [numberLength_eq, numberLength_eq, runLength_take (by omega), List.drop_take,
    fractionLength_take (by omega)]

theorem stringLength_le (quote : Char) (rest : List Char) :
    stringLength quote rest ≤ rest.length := by
  induction rest using stringLength.induct quote with
  | case1 => exact Nat.le_refl _
  | case2 rest => simp [stringLength]
  | case3 c rest hnewline ih =>
      simp only [stringLength, if_neg hnewline, List.length_cons]
      omega
  | case4 c rest hescape hstop =>
      rw [stringLength, if_pos hstop]
      · exact Nat.zero_le _
      · exact hescape
  | case5 c rest hescape hstop ih =>
      rw [stringLength, if_neg hstop, List.length_cons]
      · omega
      · exact hescape

theorem stringLength_take (quote : Char) (rest : List Char) :
    ∀ count, stringLength quote rest ≤ count →
      stringLength quote (rest.take count) = stringLength quote rest := by
  induction rest using stringLength.induct quote with
  | case1 => simp
  | case2 rest =>
      intro count _
      rcases count with _ | _ | count <;> simp [stringLength]
  | case3 c rest hnewline ih =>
      intro count hcount
      simp only [stringLength, if_neg hnewline] at hcount ⊢
      obtain ⟨count, rfl⟩ : ∃ below, count = below + 2 := ⟨count - 2, by omega⟩
      simp only [List.take_succ_cons, stringLength, if_neg hnewline]
      rw [ih count (by omega)]
  | case4 c rest hescape hstop =>
      intro count _
      have hlength : stringLength quote (c :: rest) = 0 := by
        rw [stringLength, if_pos hstop]
        exact hescape
      rw [hlength]
      cases count with
      | zero => rfl
      | succ count =>
          rw [List.take_succ_cons, stringLength, if_pos hstop]
          rintro next after rfl hafter
          cases rest with
          | nil => simp at hafter
          | cons next' after' => exact hescape next' after' rfl rfl
  | case5 c rest hescape hstop ih =>
      intro count hcount
      have hc : c ≠ '\\' := fun h => hstop (.inr (.inl h))
      rw [stringLength_cons _ hc, if_neg hstop] at hcount ⊢
      obtain ⟨count, rfl⟩ : ∃ below, count = below + 1 := ⟨count - 1, by omega⟩
      rw [List.take_succ_cons, stringLength_cons _ hc, if_neg hstop, ih count (by omega)]

theorem string_le (quote : Char) (rest : List Char) : (string quote rest).2 ≤ rest.length := by
  have hle := stringLength_le quote rest
  unfold string
  simp only
  split
  · rename_i hclosed
    refine Nat.lt_of_not_le fun hlong => ?_
    rw [List.drop_eq_nil_of_le hlong] at hclosed
    cases hclosed
  · exact hle

theorem string_take {quote : Char} {rest : List Char} {count : Nat} (h : (string quote rest).2 ≤ count) :
    string quote (rest.take count) = string quote rest := by
  have hlength : stringLength quote rest ≤ count := by
    unfold string at h
    simp only at h
    split at h <;> simp only at h <;> omega
  have hhead : ((rest.take count).drop (stringLength quote rest)).head? = some quote ↔
      (rest.drop (stringLength quote rest)).head? = some quote := by
    rw [List.head?_drop, List.head?_drop, List.getElem?_take]
    split
    · exact Iff.rfl
    · rename_i hshort
      refine iff_of_false nofun fun hclosed => hshort ?_
      rw [string, List.head?_drop, if_pos hclosed] at h
      exact h
  unfold string
  rw [stringLength_take quote rest count hlength]
  simp only [hhead]

theorem symbol_le (c : Char) (rest : List Char) : (symbol c rest).2 ≤ rest.length := by
  unfold symbol
  split
  · rename_i hpair
    cases rest with
    | nil => cases hpair
    | cons d rest => exact Nat.succ_le_succ (Nat.zero_le _)
  · exact Nat.zero_le _

theorem symbol_take {c : Char} {rest : List Char} {count : Nat} (h : (symbol c rest).2 ≤ count) :
    symbol c (rest.take count) = symbol c rest := by
  cases rest with
  | nil => simp
  | cons d rest =>
      cases count with
      | succ count => rfl
      | zero =>
          unfold symbol at h ⊢
          split at h
          · cases h
          · rfl

theorem classify_le (c : Char) (rest : List Char) : (classify c rest).2 ≤ rest.length := by
  cases begins c with
  | spacing hread | word hread =>
      rw [hread]
      exact runLength_le _ _
  | newline hread =>
      rw [hread]
      exact Nat.zero_le _
  | slash hread =>
      rw [hread]
      split
      · exact runLength_le _ _
      · exact symbol_le c rest
  | number hread =>
      rw [hread]
      exact numberLength_le rest
  | string _ hread =>
      rw [hread]
      exact string_le c rest
  | symbol hread =>
      rw [hread]
      exact symbol_le c rest

/-- A token is read alike when the text is cut somewhere behind it. -/
theorem classify_take {c : Char} {rest : List Char} {count : Nat} (h : (classify c rest).2 ≤ count) :
    classify c (rest.take count) = classify c rest := by
  cases begins c with
  | spacing hread =>
      rw [hread] at h
      rw [hread, hread, runLength_take h]
  | newline hread => rw [hread, hread]
  | slash hread =>
      rw [hread] at h
      rw [hread, hread]
      by_cases hcomment : rest.head? = some '/'
      · rw [if_pos hcomment] at h ⊢
        have hfirst : (rest.take count).head? = some '/' := by
          cases rest with
          | nil => cases hcomment
          | cons d rest =>
              cases hcomment
              obtain ⟨count, rfl⟩ : ∃ below, count = below + 1 := by
                refine ⟨count - 1, ?_⟩
                simp [runLength] at h
                omega
              rfl
        rw [if_pos hfirst, runLength_take h]
      · rw [if_neg hcomment] at h ⊢
        -- what is left of the text begins as before, or is empty
        have hshort : (rest.take count).head? ≠ some '/' := by
          rw [List.head?_take]
          split
          · exact (Option.some_ne_none _).symm
          · exact hcomment
        rw [if_neg hshort, symbol_take h]
  | word hread =>
      rw [hread] at h
      rw [hread, hread, runLength_take h, takeWhile_take h]
  | number hread =>
      rw [hread] at h
      rw [hread, hread, numberLength_take h]
  | string _ hread =>
      rw [hread] at h
      rw [hread, hread, string_take h]
  | symbol hread =>
      rw [hread] at h
      rw [hread, hread, symbol_take h]

theorem writes_first (p : Position) (c : Char) (rest : List Char) :
    (first p c rest).1.kind.Writes (first p c rest).1.text := by
  refine ⟨c, rest.take (classify c rest).2, by simp [first], ?_⟩
  rw [classify_take (Nat.le_refl _), List.length_take, Nat.min_eq_left (classify_le c rest)]
  rfl

theorem writes_lexemes (p : Position) (text : List Char) :
    ∀ token ∈ lexemes p text, token.kind.Writes token.text := by
  induction p, text using induct with
  | nil p => exact nofun
  | cons p c rest ih =>
      rw [lexemes_cons]
      exact List.forall_mem_cons.mpr ⟨writes_first p c rest, ih⟩

theorem first_take (p : Position) {c : Char} {rest : List Char} {count : Nat}
    (h : (classify c rest).2 ≤ count) : first p c (rest.take count) = first p c rest := by
  simp only [first, classify_take h, List.take_take, Nat.min_eq_left h]

theorem lexemes_flatMap {p : Position} {text : List Char} {before behind : List Token}
    (h : lexemes p text = before ++ behind) :
    lexemes p (before.flatMap (·.text.toList)) = before ∧
      lexemes (p.advancedBy (before.flatMap (·.text.toList))) (behind.flatMap (·.text.toList)) = behind := by
  induction before generalizing p text with
  | nil =>
      have hbehind : lexemes p text = behind := h
      refine ⟨rfl, ?_⟩
      rw [← hbehind, flatMap_lexemes]
      exact rfl
  | cons token before ih =>
      cases text with
      | nil => cases h
      | cons c rest =>
          rw [lexemes_cons, List.cons_append] at h
          obtain ⟨rfl, hrest⟩ := List.cons.inj h
          obtain ⟨hbefore, hbehind⟩ := ih hrest
          have hdrop : rest.drop (first p c rest).2 =
              before.flatMap (·.text.toList) ++ behind.flatMap (·.text.toList) := by
            rw [← List.flatMap_append, ← hrest, flatMap_lexemes]
          -- the text is cut behind the first token, by the characters of the others
          let count := (first p c rest).2 + (before.flatMap (·.text.toList)).length
          have hfirst : (first p c rest).1.text.toList = c :: rest.take (first p c rest).2 :=
            String.toList_ofList
          have hcut : ((first p c rest).1 :: before).flatMap (·.text.toList) = c :: rest.take count := by
            rw [List.flatMap_cons, hfirst, List.take_add, hdrop, List.take_left, List.cons_append]
          have hle : (classify c rest).2 ≤ count := Nat.le_add_right _ _
          have hcount : (rest.take count).drop (first p c rest).2 = before.flatMap (·.text.toList) := by
            rw [List.drop_take, hdrop, Nat.add_sub_cancel_left, List.take_left]
          rw [hcut, lexemes_cons, first_take p hle, hcount, hbefore]
          refine ⟨rfl, ?_⟩
          rw [← advancedBy_first, first_take p hle, hcount]
          exact hbehind

end Scan

end ScriptSyntax
