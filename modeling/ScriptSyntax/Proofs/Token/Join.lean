import ScriptSyntax.Proofs.Token.Alone
import ScriptSyntax.Proofs.Token.Words

/-!
Texts joined at a line break.  No token reaches past the end of its line, so the tokens of lines and of what
follows them are the tokens of both.
-/

namespace ScriptSyntax.Scan

variable {after : List Char}

theorem endsWord_newline : EndsWord ('\n' :: after) := by
  rintro c ⟨⟩
  exact .inr rfl

theorem stringLength_line (quote : Char) (text : List Char) :
    stringLength quote (text ++ '\n' :: after) = stringLength quote text := by
  have hbreak : stringLength quote ('\n' :: after) = 0 := by
    rw [stringLength_cons _ (by decide), if_pos (by simp)]
  induction text using stringLength.induct quote with
  | case1 => exact hbreak
  | case2 rest => simp [stringLength]
  | case3 c rest hnewline ih => simp only [List.cons_append, stringLength, if_neg hnewline, ih]
  | case4 c rest hescape hstop =>
      by_cases hc : c = '\\'
      · -- the backslash is the last character of its line
        cases rest with
        | nil => simp [hc, stringLength]
        | cons d rest => exact absurd rfl (hescape d rest hc)
      · rw [List.cons_append, stringLength_cons _ hc, stringLength_cons _ hc, if_pos hstop, if_pos hstop]
  | case5 c rest hescape hstop ih =>
      have hc : c ≠ '\\' := fun h => hstop (.inr (.inl h))
      rw [List.cons_append, stringLength_cons _ hc, stringLength_cons _ hc, if_neg hstop, if_neg hstop, ih]

theorem string_line {quote : Char} (hquote : quote ≠ '\n') (text : List Char) :
    string quote (text ++ '\n' :: after) = string quote text := by
  have hhead : ((text ++ '\n' :: after).drop (stringLength quote text)).head? = some quote ↔
      (text.drop (stringLength quote text)).head? = some quote := by
    rw [List.drop_append_of_le_length (stringLength_le quote text)]
    cases text.drop (stringLength quote text) with
    | nil => simp [Ne.symm hquote]
    | cons c rest => rfl
  unfold string
  simp only [stringLength_line, hhead]

theorem classify_line (c : Char) (text : List Char) :
    classify c (text ++ '\n' :: after) = classify c text := by
  by_cases hnewline : c = '\n'
  · subst hnewline
    rfl
  cases begins c with
  | spacing hread =>
      rw [hread, hread, runLength_append (by rintro d ⟨⟩; rfl)]
  | newline hread => rw [hread, hread]
  | slash hread =>
      have hhead : (text ++ '\n' :: after).head? = some '/' ↔ text.head? = some '/' := by
        cases text with
        | nil => simp
        | cons d text => rfl
      rw [hread, hread, symbol_append endsWord_newline, runLength_append (by rintro d ⟨⟩; rfl)]
      simp only [hhead]
  | word hread =>
      rw [hread, hread, takeWhile_append (by rintro d ⟨⟩; rfl), runLength_append (by rintro d ⟨⟩; rfl)]
  | number hread => rw [hread, hread, numberLength_append endsWord_newline]
  | string _ hread => rw [hread, hread, string_line hnewline]
  | symbol hread => rw [hread, hread, symbol_append endsWord_newline]

theorem first_line (p : Position) (c : Char) (text : List Char) :
    first p c (text ++ '\n' :: after) = first p c text := by
  have hlength : (classify c text).2 ≤ text.length := classify_le c text
  simp only [first, classify_line, List.take_append_of_le_length hlength]

theorem newline_not_mem_taken {c : Char} (hc : c ≠ '\n') (rest : List Char) :
    '\n' ∉ c :: rest.take (classify c rest).2 := by
  rw [List.mem_cons, not_or]
  refine ⟨Ne.symm hc, fun hmem => ?_⟩
  obtain ⟨line, after, rfl, hline⟩ := List.eq_append_cons_of_mem (List.mem_of_mem_take hmem)
  have hlength : (classify c line).2 ≤ line.length := classify_le c line
  rw [classify_line, List.take_append_of_le_length hlength] at hmem
  exact hline (List.mem_of_mem_take hmem)

theorem lexemes_line (p : Position) (text : List Char) :
    lexemes p (text ++ '\n' :: after) =
      lexemes p text ++ lexemes (p.advancedBy text) ('\n' :: after) := by
  induction p, text using induct with
  | nil p => rfl
  | cons p c rest ih =>
      have hlength : (first p c rest).2 ≤ rest.length := classify_le c rest
      rw [List.cons_append, lexemes_cons, lexemes_cons, first_line, List.drop_append_of_le_length hlength, ih,
        advancedBy_first, List.cons_append]

theorem lexemes_newline (p : Position) (text : List Char) :
    lexemes p ('\n' :: text) = ⟨.newline, "\n", ⟨p, p.next '\n'⟩⟩ :: lexemes (p.next '\n') text := by
  rw [lexemes_cons]
  rfl

end ScriptSyntax.Scan
