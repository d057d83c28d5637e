import ScriptSyntax.Position
import ScriptSyntax.Text.Quoted

/-!
Texts that show where they end.  A run of characters of one sort ends before a character of another sort,
`append_inj_of_all`, so a number ends behind its last digit; a quoted text ends at its closing quote,
`quoted_append_inj`, since a quote inside it is escaped.  What such a text stands for and what follows it can both
be told from the whole.
-/

namespace ScriptSyntax

namespace Text

variable {x y : List Char}

/-! ### Runs of one sort of character -/

theorem toList_pushn (c : Char) (n : Nat) : ("".pushn c n).toList = List.replicate n c := by
  induction n with
  | zero => rfl
  | succ n ih =>
      rw [String.pushn_eq_repeat_push] at ih ⊢
      rw [Nat.repeat, String.toList_push, ih, List.replicate_succ']

theorem takeWhile_append_of_all {p : Char → Bool} {text : List Char} (htext : ∀ c ∈ text, p c)
    (hx : ∀ c ∈ x.head?, p c = false) : (text ++ x).takeWhile p = text := by
  rw [List.takeWhile_append_of_pos htext]
  cases x with
  | nil => simp
  | cons c x =>
      have hc : p c = false := hx c rfl
      simp [hc]

theorem append_inj_of_all {p : Char → Bool} {first second : List Char} (hfirst : ∀ c ∈ first, p c)
    (hsecond : ∀ c ∈ second, p c) (hx : ∀ c ∈ x.head?, p c = false) (hy : ∀ c ∈ y.head?, p c = false)
    (h : first ++ x = second ++ y) : first = second ∧ x = y := by
  have hsame : first = second := by
    rw [← takeWhile_append_of_all hfirst hx, h, takeWhile_append_of_all hsecond hy]
  subst hsame
  exact ⟨rfl, List.append_cancel_left h⟩

/-! ### Numbers -/

theorem digitChar_inj : ∀ m < 16, ∀ n < 16, Nat.digitChar m = Nat.digitChar n → m = n := by decide

theorem exists_of_mem_toDigits {base n : Nat} (hbase : 1 < base) {c : Char}
    (hc : c ∈ Nat.toDigits base n) : ∃ digit < base, c = Nat.digitChar digit := by
  induction n using Nat.strongRecOn with
  | ind n ih =>
      rw [Nat.toDigits_eq_if hbase] at hc
      split at hc
      · rename_i hsmall
        exact ⟨n, hsmall, List.mem_singleton.mp hc⟩
      · rename_i hlarge
        rcases List.mem_append.mp hc with hmem | hlast
        · exact ih (n / base) (Nat.div_lt_self (by omega) hbase) hmem
        · exact ⟨n % base, Nat.mod_lt n (by omega), List.mem_singleton.mp hlast⟩

theorem toDigits_inj {base : Nat} (hbase : 1 < base) (hle : base ≤ 16) {m n : Nat}
    (h : Nat.toDigits base m = Nat.toDigits base n) : m = n := by
  induction m using Nat.strongRecOn generalizing n with
  | ind m ih =>
      have hdigit {k l : Nat} (hk : k < base) (hl : l < base) (hchar : Nat.digitChar k = Nat.digitChar l) :
          k = l := digitChar_inj k (by omega) l (by omega) hchar
      -- a number below the base has one digit, and any other one has more
      have hlonger (k : Nat) (digit digit' : Char) : Nat.toDigits base k ++ [digit'] ≠ [digit] := by
        intro hone
        have hlength := congrArg List.length hone
        have hpos := Nat.length_toDigits_pos (b := base) (n := k)
        simp at hlength
      rw [Nat.toDigits_eq_if hbase, Nat.toDigits_eq_if hbase (n := n)] at h
      split at h
      · rename_i hm
        split at h
        · rename_i hn
          exact hdigit hm hn (List.singleton_inj.mp h)
        · exact absurd h.symm (hlonger _ _ _)
      · rename_i hm
        split at h
        · exact absurd h (hlonger _ _ _)
        · rename_i hn
          obtain ⟨hfront, hlast⟩ := List.append_inj' h rfl
          have hquotient := ih (m / base) (Nat.div_lt_self (by omega) hbase) hfront
          have hremainder := hdigit (Nat.mod_lt m (by omega)) (Nat.mod_lt n (by omega))
            (List.singleton_inj.mp hlast)
          rw [← Nat.div_add_mod m base, hquotient, hremainder, Nat.div_add_mod]

theorem toString_append_inj {m n : Nat} (hx : ∀ c ∈ x.head?, c.isDigit = false)
    (hy : ∀ c ∈ y.head?, c.isDigit = false) (h : (toString m).toList ++ x = (toString n).toList ++ y) :
    m = n ∧ x = y := by
  have hdigits (k : Nat) : (toString k).toList = Nat.toDigits 10 k := Nat.toList_repr
  have hall (k : Nat) : ∀ c ∈ Nat.toDigits 10 k, c.isDigit := fun c hc =>
    Nat.isDigit_of_mem_toDigits (by decide) (by decide) hc
  rw [hdigits, hdigits] at h
  obtain ⟨hsame, hbehind⟩ := append_inj_of_all (hall m) (hall n) hx hy h
  exact ⟨toDigits_inj (by decide) (by decide) hsame, hbehind⟩

/-! ### Quoted texts -/

/-- The character that a letter behind a backslash stands for. -/
def unmarked : Char → Char
  | 'n' => '\n'
  | 'r' => '\r'
  | 't' => '\t'
  | '0' => '\x00'
  | c => c

/-- The three ways to write a character of a quoted text. -/
inductive Escaped (c : Char) : Prop
  | plain (hwritten : escape c = [c]) (hquote : c ≠ '"') (hescape : c ≠ '\\') (hline : c ≠ '\n')
  | marked (mark : Char) (hwritten : escape c = ['\\', mark]) (hmark : mark ≠ 'u') (hline : mark ≠ '\n')
      (hchar : unmarked mark = c)
  | numbered (hwritten : escape c = numbered c)

theorem escaped (c : Char) : Escaped c := by
  by_cases hquote : c = '"'
  · exact .marked '"' (by rw [hquote]; rfl) (by decide) (by decide) hquote.symm
  by_cases hescape : c = '\\'
  · exact .marked '\\' (by rw [hescape]; rfl) (by decide) (by decide) hescape.symm
  by_cases hline : c = '\n'
  · exact .marked 'n' (by rw [hline]; rfl) (by decide) (by decide) hline.symm
  by_cases hreturn : c = '\r'
  · exact .marked 'r' (by rw [hreturn]; rfl) (by decide) (by decide) hreturn.symm
  by_cases htab : c = '\t'
  · exact .marked 't' (by rw [htab]; rfl) (by decide) (by decide) htab.symm
  by_cases hzero : c = '\x00'
  · exact .marked '0' (by rw [hzero]; rfl) (by decide) (by decide) hzero.symm
  have hother : escape c = if isUnprintable c then numbered c else [c] := by
    rw [escape]
    all_goals assumption
  split at hother
  · exact .numbered hother
  · exact .plain hother hquote hescape hline

theorem numbered_append_inj {c d : Char} (h : numbered c ++ x = numbered d ++ y) : c = d ∧ x = y := by
  have hall (n : Nat) : ∀ digit ∈ Nat.toDigits 16 n, decide (digit ≠ '\x7d') = true := by
    intro digit hdigit
    obtain ⟨value, hvalue, rfl⟩ := exists_of_mem_toDigits (by decide) hdigit
    have hnone : ∀ value < 16, Nat.digitChar value ≠ '\x7d' := by decide
    exact decide_eq_true (hnone value hvalue)
  simp only [numbered, List.append_assoc, List.append_cancel_left_eq] at h
  obtain ⟨hdigits, hbehind⟩ := append_inj_of_all (hall _) (hall _) (by simp) (by simp) h
  have hnumber := toDigits_inj (by decide) (by decide) hdigits
  exact ⟨Char.toNat_inj.mp hnumber, (List.cons.inj hbehind).2⟩

theorem escape_append_inj {c d : Char} (h : escape c ++ x = escape d ++ y) : c = d ∧ x = y := by
  cases escaped c with
  | plain hc _ hescape _ =>
      cases escaped d with
      | plain hd =>
          rw [hc, hd] at h
          exact List.cons.inj h
      | marked _ hd | numbered hd =>
          rw [hc, hd] at h
          exact absurd (List.cons.inj h).1 hescape
  | marked mark hc hmark _ hchar =>
      cases escaped d with
      | plain hd _ hescape _ =>
          rw [hc, hd] at h
          exact absurd (List.cons.inj h).1.symm hescape
      | marked mark' hd _ _ hchar' =>
          rw [hc, hd] at h
          obtain ⟨hsame, hbehind⟩ := List.cons.inj (List.cons.inj h).2
          exact ⟨by rw [← hchar, hsame, hchar'], hbehind⟩
      | numbered hd =>
          rw [hc, hd] at h
          exact absurd (List.cons.inj (List.cons.inj h).2).1 hmark
  | numbered hc =>
      cases escaped d with
      | plain hd _ hescape _ =>
          rw [hc, hd] at h
          exact absurd (List.cons.inj h).1.symm hescape
      | marked mark' hd hmark _ _ =>
          rw [hc, hd] at h
          exact absurd (List.cons.inj (List.cons.inj h).2).1.symm hmark
      | numbered hd =>
          rw [hc, hd] at h
          exact numbered_append_inj h

theorem escape_append_ne (c : Char) : escape c ++ x ≠ '"' :: y := by
  intro h
  cases escaped c with
  | plain hc hquote _ _ =>
      rw [hc] at h
      exact hquote (List.cons.inj h).1
  | marked _ hc | numbered hc =>
      rw [hc] at h
      cases (List.cons.inj h).1

theorem flatMap_escape_append_inj {first second : List Char}
    (h : first.flatMap escape ++ '"' :: x = second.flatMap escape ++ '"' :: y) :
    first = second ∧ x = y := by
  induction first generalizing second with
  | nil =>
      cases second with
      | nil => exact ⟨rfl, (List.cons.inj h).2⟩
      | cons d second =>
          rw [List.flatMap_cons, List.append_assoc] at h
          exact absurd h.symm (escape_append_ne d)
  | cons c first ih =>
      cases second with
      | nil =>
          rw [List.flatMap_cons, List.append_assoc] at h
          exact absurd h (escape_append_ne c)
      | cons d second =>
          rw [List.flatMap_cons, List.flatMap_cons, List.append_assoc, List.append_assoc] at h
          obtain ⟨rfl, hrest⟩ := escape_append_inj h
          obtain ⟨rfl, hbehind⟩ := ih hrest
          exact ⟨rfl, hbehind⟩

theorem toList_quoted (text : String) :
    (quoted text).toList = '"' :: (text.toList.flatMap escape ++ ['"']) := by
  simp [quoted]

theorem quoted_append_inj {s t : String} (h : (quoted s).toList ++ x = (quoted t).toList ++ y) :
    s = t ∧ x = y := by
  rw [toList_quoted, toList_quoted, List.cons_append, List.cons_append, List.append_assoc,
    List.append_assoc] at h
  obtain ⟨hsame, hbehind⟩ := flatMap_escape_append_inj (List.cons.inj h).2
  exact ⟨String.toList_inj.mp hsame, hbehind⟩

theorem newline_not_mem_quoted (text : String) : '\n' ∉ (quoted text).toList := by
  have hescape (c : Char) : '\n' ∉ escape c := by
    cases escaped c with
    | plain hc _ _ hline =>
        rw [hc, List.mem_singleton]
        exact Ne.symm hline
    | marked mark hc _ hline _ =>
        rw [hc]
        simp [Ne.symm hline]
    | numbered hc =>
        rw [hc]
        simp only [numbered, List.mem_append, not_or]
        refine ⟨⟨by decide, fun hdigit => ?_⟩, by decide⟩
        obtain ⟨value, hvalue, hchar⟩ := exists_of_mem_toDigits (by decide) hdigit
        have hnone : ∀ value < 16, '\n' ≠ Nat.digitChar value := by decide
        exact hnone value hvalue hchar
  simp [toList_quoted, hescape]

end Text

namespace Position

theorem display_append_inj {p q : Position} {x y : List Char} (hx : ∀ c ∈ x.head?, c.isDigit = false)
    (hy : ∀ c ∈ y.head?, c.isDigit = false) (h : p.display.toList ++ x = q.display.toList ++ y) :
    p.line = q.line ∧ p.column = q.column ∧ x = y := by
  simp only [display, String.toList_append, List.append_assoc] at h
  obtain ⟨hline, hrest⟩ := Text.toString_append_inj (by rintro c ⟨⟩; rfl) (by rintro c ⟨⟩; rfl) h
  obtain ⟨hcolumn, hbehind⟩ := Text.toString_append_inj hx hy (List.append_cancel_left hrest)
  exact ⟨hline, hcolumn, hbehind⟩

end Position

end ScriptSyntax
