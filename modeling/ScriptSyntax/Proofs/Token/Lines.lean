import Mathlib.Data.List.Chain
import Mathlib.Data.List.TakeWhile
import ScriptSyntax.Proofs.Token.Join
import ScriptSyntax.Proofs.Token.Spelling
import ScriptSyntax.Proofs.Tree.Moved

/-!
The lines that the tokens of a text stand on.  Only a newline has a line break in it,
`Scan.kind_eq_newline_iff`, so the lines of the tokens follow from the texts of those that are no trivia; and
behind whole lines a text has the tokens that it has alone, `Scan.lexemes_shiftedBy`.
-/

namespace ScriptSyntax

theorem Position.line_next (p : Position) (c : Char) :
    (p.next c).line = p.line + [c].count '\n' := by
  unfold Position.next
  split
  · rename_i hbreak
    rw [hbreak]
    rfl
  · rename_i hother
    rw [List.count_eq_zero_of_not_mem (by simpa using Ne.symm hother)]
    rfl

theorem Position.line_advancedBy (p : Position) (text : List Char) :
    (p.advancedBy text).line = p.line + text.count '\n' := by
  induction text generalizing p with
  | nil => rfl
  | cons c text ih =>
      have hcount : (c :: text).count '\n' = [c].count '\n' + text.count '\n' :=
        @List.count_append _ _ _ [c] text
      rw [Position.advancedBy_cons, ih, Position.line_next, hcount, Nat.add_assoc]

/-- Where a place of a text comes to lie when the text stands behind the lines. -/
def Position.shiftedBy (lines : String) (p : Position) : Position :=
  ⟨p.offset + lines.utf8ByteSize, p.line + lines.toList.count '\n', p.column⟩

namespace Position

variable (lines : String)

theorem next_shiftedBy (p : Position) (c : Char) :
    (p.shiftedBy lines).next c = (p.next c).shiftedBy lines := by
  unfold next
  split
  · simp only [shiftedBy, Nat.add_right_comm]
  · simp only [shiftedBy, Nat.add_right_comm]

theorem advancedBy_shiftedBy (p : Position) (text : List Char) :
    (p.shiftedBy lines).advancedBy text = (p.advancedBy text).shiftedBy lines := by
  induction text generalizing p with
  | nil => rfl
  | cons c text ih => rw [advancedBy_cons, advancedBy_cons, next_shiftedBy, ih]

theorem origin_shiftedBy {lines : String} {line : List Char} (hlines : lines.toList = line ++ ['\n']) :
    origin.shiftedBy lines = origin.advancedBy lines.toList := by
  ext
  · rw [Text.advancedBy_offset, Text.byteLength_toList]
    rfl
  · rw [line_advancedBy]
    rfl
  · rw [hlines, advancedBy_append]
    rfl

end Position

/-- The token with its places moved. -/
def Token.mapPositions (f : Position → Position) (token : Token) : Token :=
  { token with span := token.span.mapPositions f }

namespace Scan

theorem symbol_ne_newline (c : Char) (rest : List Char) : (symbol c rest).1 ≠ .newline := by
  have hkinds : ∀ kind ∈ symbolKinds, kind ≠ .newline := by decide
  exact hkinds _ (kind_mem_symbolKinds c rest)

theorem wordKind_ne_newline (word : List Char) : wordKind word ≠ .newline := by
  have hkinds : ∀ kind ∈ wordKinds, kind ≠ .newline := by decide
  exact hkinds _ (wordKind_mem_wordKinds word)

theorem classify_ne_newline {c : Char} (hc : c ≠ '\n') (rest : List Char) :
    (classify c rest).1 ≠ .newline := by
  unfold classify
  rw [if_neg hc]
  repeat' split
  · exact nofun
  · exact nofun
  · exact wordKind_ne_newline _
  · exact nofun
  · rcases kind_string c rest with hkind | hkind
    · simp [hkind]
    · simp [hkind]
  · exact symbol_ne_newline c rest

theorem kind_eq_newline_iff (p : Position) (text : List Char) :
    ∀ token ∈ lexemes p text, (token.kind = .newline ↔ '\n' ∈ token.text.toList) ∧
      (token.kind = .newline → token.text = "\n") := by
  induction p, text using induct with
  | nil p => exact nofun
  | cons p c rest ih =>
      rw [lexemes_cons]
      refine List.forall_mem_cons.mpr ⟨?_, ih⟩
      have htext : (first p c rest).1.text.toList = c :: rest.take (classify c rest).2 :=
        String.toList_ofList
      rw [htext]
      by_cases hc : c = '\n'
      · subst hc
        exact ⟨⟨fun _ => List.mem_cons_self, fun _ => rfl⟩, fun _ => rfl⟩
      · have hkind : (first p c rest).1.kind ≠ .newline := classify_ne_newline hc rest
        exact ⟨⟨fun h => absurd h hkind, fun h => absurd h (newline_not_mem_taken hc rest)⟩,
          fun h => absurd h hkind⟩

theorem newline_not_mem_trivia (p : Position) (text : List Char) :
    ∀ token ∈ lexemes p text, token.kind.isTrivia → '\n' ∉ token.text.toList := by
  intro token htoken htrivia hmem
  rw [← (kind_eq_newline_iff p text token htoken).1] at hmem
  rw [hmem] at htrivia
  cases htrivia

theorem kind_ne_newline (p : Position) {text : List Char} (htext : '\n' ∉ text) :
    ∀ token ∈ lexemes p text, token.kind ≠ .newline := by
  intro token htoken hkind
  apply htext
  rw [← flatMap_lexemes p text]
  exact List.mem_flatMap.mpr ⟨token, htoken, (kind_eq_newline_iff p text token htoken).1.mp hkind⟩

theorem classify_comment {c : Char} {rest : List Char} (h : (classify c rest).1 = .comment) :
    (classify c rest).2 = runLength (· ≠ '\n') rest := by
  cases begins c with
  | spacing hread | newline hread | number hread =>
      rw [hread] at h
      cases h
  | slash hread =>
      rw [hread] at h ⊢
      split
      · rfl
      · rename_i hhead
        rw [if_neg hhead] at h
        have htrivia := (kind_symbol c rest).2
        rw [h] at htrivia
        cases htrivia
  | word hread =>
      have htrivia := (kind_wordKind (c :: rest.takeWhile isWordTail)).2
      rw [hread] at h
      rw [show wordKind _ = TokenKind.comment from h] at htrivia
      cases htrivia
  | string _ hread =>
      rw [hread] at h
      rcases kind_string c rest with hkind | hkind
      · rw [hkind] at h
        cases h
      · rw [hkind] at h
        cases h
  | symbol hread =>
      have htrivia := (kind_symbol c rest).2
      rw [hread] at h
      rw [h] at htrivia
      cases htrivia

theorem isChain_lexemes (p : Position) (text : List Char) :
    (lexemes p text).IsChain fun a b => a.kind = .comment → b.kind = .newline := by
  induction p, text using induct with
  | nil p => exact .nil
  | cons p c rest ih =>
      rw [lexemes_cons]
      refine List.isChain_cons.mpr ⟨fun next hnext hcomment => ?_, ih⟩
      have hextra : (first p c rest).2 = runLength (· ≠ '\n') rest := classify_comment hcomment
      have hline := List.takeWhile_append_dropWhile (p := fun d : Char => d ≠ '\n') (l := rest)
      have hdrop : rest.drop (first p c rest).2 = rest.dropWhile (· ≠ '\n') := by
        rw [hextra, runLength]
        nth_rewrite 2 [← hline]
        exact List.drop_left
      rw [hdrop] at hnext
      cases hafter : rest.dropWhile (· ≠ '\n') with
      | nil =>
          rw [hafter] at hnext
          cases hnext
      | cons d after =>
          have hbreak : d = '\n' := by
            have hhead := List.head?_dropWhile_not (· ≠ '\n') rest
            rw [hafter] at hhead
            simpa using hhead
          subst hbreak
          rw [hafter, lexemes_newline] at hnext
          cases hnext
          rfl

theorem lexemes_shiftedBy (lines : String) (p : Position) (text : List Char) :
    lexemes (p.shiftedBy lines) text = (lexemes p text).map (·.mapPositions (·.shiftedBy lines)) := by
  induction p, text using induct with
  | nil p => rfl
  | cons p c rest ih =>
      have hstop : (first (p.shiftedBy lines) c rest).1.span.stop =
          (first p c rest).1.span.stop.shiftedBy lines := Position.advancedBy_shiftedBy lines p _
      have hfirst : (first (p.shiftedBy lines) c rest).1 =
          (first p c rest).1.mapPositions (·.shiftedBy lines) := by
        simp only [Token.mapPositions, Span.mapPositions, ← hstop]
        rfl
      have hextra : (first (p.shiftedBy lines) c rest).2 = (first p c rest).2 := rfl
      rw [lexemes_cons, lexemes_cons, List.map_cons, hstop, hextra, hfirst, ih]

end Scan

/-- Each of the slots begins on the line that the one before it ends on, the first one on the given line. -/
def Slot.OnLines (line : Nat) : List Slot → Prop
  | [] => True
  | slot :: slots =>
      slot.token.span.start.line = line ∧
        slot.token.span.stop.line = line + slot.token.text.toList.count '\n' ∧
          OnLines slot.token.span.stop.line slots

theorem Token.Run.onLines {p q : Position} {tokens : List Token} (h : Token.Run p tokens q)
    (htrivia : ∀ token ∈ tokens, token.kind.isTrivia → '\n' ∉ token.text.toList)
    (pending comment : Option Span) :
    Slot.OnLines p.line (Slot.significant pending tokens ++ [⟨Token.endOfFile q, comment⟩]) := by
  induction tokens generalizing p pending with
  | nil =>
      cases h
      exact ⟨rfl, rfl, trivial⟩
  | cons token tokens ih =>
      obtain ⟨hstart, hstop, -, -, hrest⟩ := h
      obtain ⟨hfirst, hlater⟩ := List.forall_mem_cons.mp htrivia
      have hline := hstop ▸ p.line_advancedBy token.text.toList
      -- behind trivia the line is the same
      have hsame : token.kind.isTrivia → token.span.stop.line = p.line := by
        intro hkind
        rw [hline, List.count_eq_zero_of_not_mem (hfirst hkind), Nat.add_zero]
      rcases Slot.trivia_cases token.kind with hkind | hkind | hkind
      · rw [Slot.significant_whitespace hkind, ← hsame (by rw [hkind]; rfl)]
        exact ih hrest hlater _
      · rw [Slot.significant_comment hkind, ← hsame (by rw [hkind]; rfl)]
        exact ih hrest hlater _
      · rw [Slot.significant_token hkind]
        exact ⟨congrArg _ hstart, hline, ih hrest hlater _⟩

end ScriptSyntax
