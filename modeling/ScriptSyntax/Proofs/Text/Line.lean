import Mathlib.Data.List.Basic
import ScriptSyntax.Proofs.Token.Lines
import ScriptSyntax.Proofs.Token.Stored
import ScriptSyntax.Text.Line

/-!
Two ways to count lines.  The line on which a byte offset falls is found by cutting the text into lines,
and a position counts lines and columns character by character.  Wherever a text can be cut in two, both
come to the same line and the same place on it, `lineAt?_agrees`.
-/

namespace ScriptSyntax.Text

/-! ### Lines -/

theorem linesAfter_append (done : List (List Char)) {body : List Char} (hbody : '\n' ∉ body)
    (line rest : List Char) : linesAfter done line (body ++ rest) =
      linesAfter done (body.reverse ++ line) rest := by
  induction body generalizing line with
  | nil => rfl
  | cons c body ih =>
      obtain ⟨hc, hbody⟩ := not_or.mp (List.mem_cons.not.mp hbody)
      rw [List.cons_append, linesAfter, if_neg (Ne.symm hc), ih hbody, List.reverse_cons,
        List.append_assoc]
      rfl

theorem linesAfter_eq (done : List (List Char)) (line text : List Char) :
    linesAfter done line text = done.reverse ++ linesAfter [] line text := by
  induction text generalizing done line with
  | nil => simp [linesAfter]
  | cons c text ih =>
      unfold linesAfter
      split
      · rw [ih, ih [_]]
        simp
      · exact ih done _

theorem lines_of_notMem {body : List Char} (hbody : '\n' ∉ body) : lines body = [body] := by
  have happend := linesAfter_append [] hbody [] []
  simpa [lines, linesAfter] using happend

theorem lines_append {body : List Char} (hbody : '\n' ∉ body) (rest : List Char) :
    lines (body ++ '\n' :: rest) = (body ++ ['\n']) :: lines rest := by
  rw [lines, linesAfter_append [] hbody, linesAfter, if_pos rfl, linesAfter_eq]
  simp [lines]

@[elab_as_elim]
theorem lineInduction {motive : List Char → Prop} (last : ∀ body, '\n' ∉ body → motive body)
    (line : ∀ body rest, '\n' ∉ body → motive rest → motive (body ++ '\n' :: rest))
    (text : List Char) : motive text := by
  by_cases hbreak : '\n' ∈ text
  · obtain ⟨body, rest, rfl, hbody⟩ := List.eq_append_cons_of_mem hbreak
    exact line body rest hbody (lineInduction last line rest)
  · exact last text hbreak
termination_by text.length
decreasing_by
  subst_vars
  simp
  omega

theorem lines_ne_nil (text : List Char) : lines text ≠ [] := by
  cases text using lineInduction with
  | last body hbody => simp [lines_of_notMem hbody]
  | line body rest hbody => simp [lines_append hbody]

theorem locateFrom_lines_append (number offset : Nat) {body : List Char} (hbody : '\n' ∉ body)
    (rest : List Char) : locateFrom number offset (lines (body ++ '\n' :: rest)) =
      if offset ≤ byteLength body then some ⟨number, body ++ ['\n'], offset⟩
      else locateFrom (number + 1) (offset - (byteLength body + 1)) (lines rest) := by
  have hlength : byteLength (body ++ ['\n']) = byteLength body + 1 := by
    rw [byteLength_append]
    rfl
  obtain ⟨next, more, hrest⟩ := List.exists_cons_of_ne_nil (lines_ne_nil rest)
  rw [lines_append hbody, hrest, locateFrom, hlength]
  · simp only [Nat.lt_add_one_iff]
  · exact nofun

theorem locateFrom_eq_none_iff {number offset : Nat} {text : List Char} :
    locateFrom number offset (lines text) = none ↔ byteLength text < offset := by
  induction text using lineInduction generalizing number offset with
  | last body hbody => simp [lines_of_notMem hbody, locateFrom]
  | line body rest hbody ih =>
      have hlength : byteLength (body ++ '\n' :: rest) = byteLength body + 1 + byteLength rest := by
        rw [byteLength_append, byteLength_cons, ← Nat.add_assoc]
        rfl
      rw [locateFrom_lines_append number offset hbody, hlength]
      split
      · simp only [reduceCtorEq, false_iff]
        omega
      · rw [ih]
        omega

/-- The line that stands between `earlier` and `later`: before it the text has only whole lines, and it
goes on up to the first newline behind or to the end of the text. -/
structure IsLine (text : List Char) (number : Nat) (earlier line later : List Char) : Prop where
  text_eq : text = earlier ++ line ++ later
  number_eq : number = 1 + earlier.count '\n'
  starts : ∀ c ∈ earlier.getLast?, c = '\n'
  stops : ('\n' ∉ line ∧ later = []) ∨ ∃ body, line = body ++ ['\n'] ∧ '\n' ∉ body

theorem exists_isLine_of_locateFrom {number offset : Nat} {text : List Char} {place : LineLocation}
    (hplace : locateFrom (number + 1) offset (lines text) = some place) :
    ∃ earlier later, IsLine text (place.number - number) earlier place.text later ∧
      number < place.number ∧ offset = byteLength earlier + place.offset ∧
      ∃ body, body <+: place.text ∧ '\n' ∉ body ∧ place.offset ≤ byteLength body := by
  induction text using lineInduction generalizing number offset with
  | last body hbody =>
      rw [lines_of_notMem hbody, locateFrom, Option.ite_none_right_eq_some] at hplace
      obtain ⟨hle, ⟨⟩⟩ := hplace
      exact ⟨[], [], ⟨by simp, by simp, by simp, .inl ⟨hbody, rfl⟩⟩, by simp, by simp, body,
        List.prefix_rfl, hbody, hle⟩
  | line body rest hbody ih =>
      rw [locateFrom_lines_append _ _ hbody] at hplace
      split at hplace
      · rename_i hle
        obtain ⟨⟩ := hplace
        exact ⟨[], rest, ⟨by simp, by simp, by simp, .inr ⟨body, rfl, hbody⟩⟩, by simp, by simp,
          body, List.prefix_append _ _, hbody, hle⟩
      · rename_i hbehind
        obtain ⟨earlier, later, hline, hnumber, hoffset, hwithin⟩ := ih hplace
        have hcount : (body ++ '\n' :: earlier).count '\n' = 1 + earlier.count '\n' := by
          rw [List.count_append, List.count_eq_zero_of_not_mem hbody, List.count_cons_self]
          omega
        refine ⟨body ++ '\n' :: earlier, later, ⟨?_, ?_, ?_, hline.stops⟩, ?_, ?_, hwithin⟩
        · rw [hline.text_eq]
          simp
        · rw [hcount, ← hline.number_eq]
          omega
        · intro c hc
          rw [List.getLast?_append, List.getLast?_cons] at hc
          cases hlast : earlier.getLast? with
          | none => simpa [hlast, eq_comm] using hc
          | some d => exact hline.starts c (by simpa [hlast] using hc)
        · omega
        · rw [byteLength_append, byteLength_cons]
          change _ = byteLength body + (1 + byteLength earlier) + place.offset
          omega

/-! ### Newlines before a byte -/

def bytes (text : List Char) : List UInt8 :=
  text.flatMap String.utf8EncodeChar

theorem length_bytes (text : List Char) : (bytes text).length = byteLength text := by
  induction text with
  | nil => rfl
  | cons c text ih =>
      rw [byteLength_cons, ← ih, ← String.length_utf8EncodeChar]
      exact List.length_append

theorem newline_notMem_utf8EncodeChar {c : Char} (hc : c ≠ '\n') :
    (10 : UInt8) ∉ String.utf8EncodeChar c := by
  have hcode : c.val.toNat ≠ 10 := fun h => hc (Char.ext (UInt32.toNat_inj.mp h))
  unfold String.utf8EncodeChar
  generalize c.val.toNat = code at hcode ⊢
  dsimp only
  split_ifs <;> simp [← UInt8.toNat_inj] <;> omega

theorem count_bytes (text : List Char) : (bytes text).count 10 = text.count '\n' := by
  induction text with
  | nil => rfl
  | cons c text ih =>
      rw [bytes, List.flatMap_cons, List.count_append, ← bytes, ih]
      by_cases hc : c = '\n'
      · subst hc
        rw [List.count_cons_self, Nat.add_comm]
        rfl
      · rw [List.count_eq_zero_of_not_mem (newline_notMem_utf8EncodeChar hc), Nat.zero_add,
          List.count_cons_of_ne hc]

theorem count_take_bytes {earlier body later : List Char} (hbody : '\n' ∉ body) {offset : Nat}
    (hoffset : offset ≤ byteLength body) :
    ((bytes (earlier ++ (body ++ later))).take (byteLength earlier + offset)).count 10 =
      earlier.count '\n' := by
  have hnone : (bytes body).count 10 = 0 := by
    rw [count_bytes, List.count_eq_zero_of_not_mem hbody]
  have hpart : ((bytes body).take offset).count 10 = 0 :=
    Nat.eq_zero_of_le_zero (hnone ▸ (List.take_sublist _ _).count_le 10)
  have happend : bytes (earlier ++ (body ++ later)) = bytes earlier ++ (bytes body ++ bytes later) := by
    simp [bytes]
  rw [happend, ← length_bytes, List.take_length_add_append, List.count_append, count_bytes,
    List.take_append_of_le_length (length_bytes body ▸ hoffset), hpart, Nat.add_zero]

/-! ### Columns -/

theorem column_advancedBy {text : List Char} (htext : '\n' ∉ text) (p : Position) :
    (p.advancedBy text).column = p.column + text.length := by
  induction text generalizing p with
  | nil => rfl
  | cons c text ih =>
      obtain ⟨hc, htext⟩ := not_or.mp (List.mem_cons.not.mp htext)
      rw [Position.advancedBy_cons, ih htext, Position.next, if_neg (Ne.symm hc), List.length_cons]
      exact Nat.add_right_comm _ _ _

theorem column_advancedBy_lines {earlier : List Char} (hlines : ∀ c ∈ earlier.getLast?, c = '\n') :
    (Position.origin.advancedBy earlier).column = 1 := by
  rcases List.eq_nil_or_concat earlier with rfl | ⟨front, c, rfl⟩
  · rfl
  · obtain rfl : c = '\n' := hlines c (by simp)
    rw [List.concat_eq_append, Position.advancedBy_append, Position.advancedBy_cons, Position.advancedBy_nil,
      Position.next, if_pos rfl]

theorem IsLine.exists_onLine {text earlier line later before behind body : List Char} {number : Nat}
    (h : IsLine text number earlier line later) (htext : text = before ++ behind)
    (hbody : body <+: line) {offset : Nat} (hoffset : offset ≤ byteLength body)
    (hbefore : byteLength before = byteLength earlier + offset) :
    ∃ onLine, before = earlier ++ onLine ∧ onLine <+: body ∧ byteLength onLine = offset := by
  have hcut : before <+: text := ⟨behind, htext.symm⟩
  have hearlier : earlier <+: text := ⟨line ++ later, by rw [h.text_eq, List.append_assoc]⟩
  obtain ⟨onLine, rfl⟩ := prefix_of_byteLength_le hearlier hcut (by omega)
  have honLine : byteLength onLine = offset := by
    rw [byteLength_append] at hbefore
    omega
  have hwhole : earlier ++ body <+: text := by
    obtain ⟨stop, rfl⟩ := hbody
    exact ⟨stop ++ later, by rw [h.text_eq]; simp⟩
  have hfront := prefix_of_byteLength_le hcut hwhole (by simp [honLine, hoffset])
  exact ⟨onLine, rfl, (List.prefix_append_right_inj earlier).mp hfront, honLine⟩

/-- A text that can be cut in two has a line at the cut: the end of the first part and the beginning of the
second one.  The position behind the first part has the number of the line. -/
theorem exists_lineAt? {text before behind : List Char} (htext : text = before ++ behind) :
    ∃ earlier onLine rest later, before = earlier ++ onLine ∧ behind = rest ++ later ∧ '\n' ∉ onLine ∧
      IsLine text (Position.origin.advancedBy before).line earlier (onLine ++ rest) later ∧
      lineAt? text (byteLength before) =
        some ⟨(Position.origin.advancedBy before).line, onLine ++ rest, byteLength onLine⟩ := by
  have hreaches : lineAt? text (byteLength before) ≠ none := by
    rw [Ne, lineAt?, locateFrom_eq_none_iff, htext, byteLength_append]
    omega
  obtain ⟨⟨number, line, offset⟩, hplace⟩ := Option.ne_none_iff_exists'.mp hreaches
  obtain ⟨earlier, later, hline, -, hoffset, body, hbody, hplain, hwithin⟩ :=
    exists_isLine_of_locateFrom hplace
  obtain ⟨onLine, hcut, hfront, honLine⟩ := hline.exists_onLine htext hbody hwithin hoffset
  obtain ⟨rest, hrest⟩ := hfront.trans hbody
  have hplain : '\n' ∉ onLine := fun hmem => hplain (List.IsPrefix.subset hfront hmem)
  obtain rfl : onLine ++ rest = line := hrest
  obtain rfl : byteLength onLine = offset := honLine
  have hnumber : number = (Position.origin.advancedBy before).line := by
    rw [Position.line_advancedBy, hcut, List.count_append, List.count_eq_zero_of_not_mem hplain]
    exact hline.number_eq
  rw [← hnumber]
  refine ⟨earlier, onLine, rest, later, hcut, ?_, hplain, hline, hplace⟩
  have hsame : before ++ (rest ++ later) = before ++ behind := by
    rw [← htext, hline.text_eq, hcut]
    simp
  exact (List.append_cancel_left hsame).symm

/-- Every offset up to the end of the text is on the line behind as many newlines as the bytes before it
have, as far from the start of the line as it says.  Where the text can be cut at the offset, the position
behind the first part has the number of the line, and a column for each character of the line before it. -/
theorem lineAt?_agrees (text : List Char) (offset : Nat) :
    (lineAt? text offset = none ↔ byteLength text < offset) ∧
    ∀ place, lineAt? text offset = some place →
      place.number = 1 + ((bytes text).take offset).count 10 ∧
      (∃ earlier later, IsLine text place.number earlier place.text later ∧
        offset = byteLength earlier + place.offset) ∧
      ∀ before behind, text = before ++ behind → byteLength before = offset →
        byteLength text < Position.limit → ∃ onLine rest, place.text = onLine ++ rest ∧
          byteLength onLine = place.offset ∧
          Position.origin.advancedBy? before = .ok ⟨offset, place.number, 1 + onLine.length⟩ := by
  refine ⟨locateFrom_eq_none_iff, fun place hplace => ⟨?_, ?_, ?_⟩⟩
  · obtain ⟨earlier, later, hline, -, hoffset, body, ⟨stop, hstop⟩, hplain, hwithin⟩ :=
      exists_isLine_of_locateFrom hplace
    have htext : text = earlier ++ (body ++ (stop ++ later)) := by
      rw [hline.text_eq, ← hstop]
      simp
    have hnumber : place.number = 1 + earlier.count '\n' := hline.number_eq
    rw [hnumber, htext, hoffset, count_take_bytes hplain hwithin]
  · obtain ⟨earlier, later, hline, -, hoffset, -⟩ := exists_isLine_of_locateFrom hplace
    exact ⟨earlier, later, hline, hoffset⟩
  · rintro before behind htext rfl hsize
    obtain ⟨earlier, onLine, rest, later, hcut, -, hplain, hline, hsame⟩ := exists_lineAt? htext
    obtain rfl := Option.some.inj (hsame.symm.trans hplace)
    refine ⟨onLine, rest, rfl, rfl, ?_⟩
    have hend : Position.origin.advancedBy before =
        ⟨byteLength before, (Position.origin.advancedBy before).line, 1 + onLine.length⟩ := by
      ext
      · rw [advancedBy_offset]
        exact Nat.zero_add _
      · rfl
      · rw [hcut, Position.advancedBy_append, column_advancedBy hplain,
          column_advancedBy_lines hline.starts]
    rw [← hend]
    apply Position.reached_origin.advancedBy?_eq
    rw [hend]
    show byteLength before < Position.limit
    rw [htext, byteLength_append] at hsize
    omega

theorem lineAt?_agrees_wide :
    (lineAt? "a\né b\n".toList 5 = some ⟨2, "é b\n".toList, 3⟩ ∧
      ∃ onLine rest, "é b\n".toList = onLine ++ rest ∧ byteLength onLine = 3 ∧
        Position.origin.advancedBy? "a\né ".toList = .ok ⟨5, 2, 1 + onLine.length⟩) ∧
    lineAt? "a\né b\n".toList 7 = some ⟨3, [], 0⟩ := by
  have hplace : lineAt? "a\né b\n".toList 5 = some ⟨2, "é b\n".toList, 3⟩ := by decide
  obtain ⟨-, -, hcut⟩ := (lineAt?_agrees "a\né b\n".toList 5).2 _ hplace
  exact ⟨⟨hplace, hcut "a\né ".toList "b\n".toList (by decide) (by decide) (by decide)⟩, by decide⟩

end ScriptSyntax.Text
