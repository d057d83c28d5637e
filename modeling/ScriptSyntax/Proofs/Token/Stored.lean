import ScriptSyntax.Proofs.Token.Lexemes
import ScriptSyntax.Token.Stream

/-!
Tokens that can be stored.  The positions of a text that is not too long all fit into 32 bits, and each
token is the piece of the text between its two ends, `stored_of_mem_tokenize`.
-/

namespace ScriptSyntax

/-! ### Places that can be stored -/

/-- Neither the line nor the column is further than the bytes before the position: each newline and each
column takes a byte at least. -/
structure Position.Reached (p : Position) : Prop where
  line : p.line ≤ p.offset + 1
  column : p.column ≤ p.offset + 1

namespace Position

theorem reached_origin : origin.Reached :=
  ⟨Nat.le_refl _, Nat.le_refl _⟩

theorem Reached.next {p : Position} (h : p.Reached) (c : Char) : (p.next c).Reached := by
  have hsize := c.utf8Size_pos
  obtain ⟨hline, hcolumn⟩ := h
  unfold Position.next
  split
  · constructor
    · show p.line + 1 ≤ p.offset + c.utf8Size + 1
      omega
    · show 1 ≤ p.offset + c.utf8Size + 1
      omega
  · constructor
    · show p.line ≤ p.offset + c.utf8Size + 1
      omega
    · show p.column + 1 ≤ p.offset + c.utf8Size + 1
      omega

theorem Reached.advancedBy {p : Position} (h : p.Reached) (text : List Char) :
    (p.advancedBy text).Reached := by
  induction text generalizing p with
  | nil => exact h
  | cons c text ih => exact ih (h.next c)

theorem Reached.fits {p : Position} (h : p.Reached) (hlimit : p.offset < limit) : p.Fits :=
  ⟨Nat.le_of_lt hlimit, Nat.le_trans h.line hlimit, Nat.le_trans h.column hlimit⟩

theorem offset_le_advancedBy (p : Position) (text : List Char) :
    p.offset ≤ (p.advancedBy text).offset := by
  rw [Text.advancedBy_offset]
  exact Nat.le_add_right _ _

theorem Reached.advancedBy?_eq {p : Position} (h : p.Reached) {text : List Char}
    (hlimit : (p.advancedBy text).offset < limit) : p.advancedBy? text = .ok (p.advancedBy text) := by
  induction text generalizing p with
  | nil => rfl
  | cons c text ih =>
      have hnext : (p.next c).Fits := by
        apply (h.next c).fits
        exact Nat.lt_of_le_of_lt (offset_le_advancedBy (p.next c) text) hlimit
      simp only [Position.advancedBy?, List.foldlM_cons, if_pos hnext]
      exact ih (h.next c) hlimit

end Position

/-! ### Streams that can be read -/

theorem Scan.exists_split_of_mem {p : Position} {text : List Char} {token : Token}
    (htoken : token ∈ tokens p text) :
    ∃ before behind, text = before ++ (token.text.toList ++ behind) ∧
      token.span = ⟨p.advancedBy before, p.advancedBy (before ++ token.text.toList)⟩ := by
  induction p, text using induct with
  | nil p =>
      obtain rfl := List.mem_singleton.mp htoken
      exact ⟨[], [], rfl, rfl⟩
  | cons p c rest ih =>
      rw [tokens_cons, List.mem_cons] at htoken
      have hsplit : (first p c rest).1.text.toList ++ rest.drop (first p c rest).2 = c :: rest := by
        simp [first]
      rcases htoken with rfl | hlater
      · refine ⟨[], rest.drop (first p c rest).2, hsplit.symm, ?_⟩
        simp [first]
      · obtain ⟨before, behind, hrest, hspan⟩ := ih hlater
        have hstop : (first p c rest).1.span.stop = p.advancedBy (first p c rest).1.text.toList := by
          simp [first]
        refine ⟨(first p c rest).1.text.toList ++ before, behind, ?_, ?_⟩
        · rw [List.append_assoc, ← hrest, hsplit]
        · rw [hspan, hstop]
          simp only [Position.advancedBy_append]

theorem TokenStream.exists_drain {p : Position} {text : List Char}
    (hfits : ∀ piece, piece <+: text → (p.advancedBy piece).Fits) :
    ∃ last, TokenStream.drain ⟨.text text, p, false⟩ = .ok (Scan.tokens p text, last) := by
  have hall : (Scan.tokens p text).all (·.span.stop.Fits) := by
    refine List.all_eq_true.mpr fun token htoken => decide_eq_true ?_
    obtain ⟨before, behind, rfl, hspan⟩ := Scan.exists_split_of_mem htoken
    rw [hspan]
    exact hfits _ ⟨behind, List.append_assoc before _ behind⟩
  simp only [TokenStream.drain, Bool.false_eq_true, if_false, hall, if_true]
  exact ⟨_, rfl⟩

theorem TokenStream.drain_startingAt {source : String} {p : Position} {before behind : List Char}
    (hsource : source.toList = before ++ behind) (hstart : Position.origin.advancedBy before = p)
    (hsize : source.utf8ByteSize < Position.limit) :
    ∃ stream, (TokenStream.startingAt source p).drain = .ok (Scan.tokens p behind, stream) := by
  have hoffset : Text.byteLength before = p.offset := by
    rw [← hstart, Text.advancedBy_offset]
    exact (Nat.zero_add _).symm
  have hsplit : Text.splitAtByte? source.toList p.offset = .ok (before, behind) :=
    Text.splitAtByte?_eq_ok_iff.mpr ⟨hsource, hoffset⟩
  have hend : (p.advancedBy behind).offset < Position.limit := by
    rw [← Text.byteLength_toList, hsource, Text.byteLength_append, hoffset] at hsize
    rw [Text.advancedBy_offset]
    exact hsize
  have hreached : p.Reached := hstart ▸ Position.reached_origin.advancedBy before
  have hfits : ∀ piece, piece <+: behind → (p.advancedBy piece).Fits := by
    rintro piece ⟨more, rfl⟩
    rw [Position.advancedBy_append] at hend
    exact (hreached.advancedBy piece).fits (Nat.lt_of_le_of_lt (Position.offset_le_advancedBy _ more) hend)
  obtain ⟨stream, hdrain⟩ := exists_drain hfits
  refine ⟨stream, ?_⟩
  simp only [TokenStream.startingAt, hsplit]
  exact hdrain

/-! ### Tokens of a text -/

theorem Text.slice?_append (before piece behind : List Char) :
    slice? (before ++ (piece ++ behind)) (byteLength before) (byteLength before + byteLength piece) =
      .ok piece := by
  have houter : splitAtByte? (before ++ (piece ++ behind)) (byteLength before) =
      .ok (before, piece ++ behind) := splitAtByte?_eq_ok_iff.mpr ⟨rfl, rfl⟩
  have hinner : splitAtByte? (piece ++ behind) (byteLength before + byteLength piece -
      byteLength before) = .ok (piece, behind) :=
    splitAtByte?_eq_ok_iff.mpr ⟨rfl, (Nat.add_sub_cancel_left _ _).symm⟩
  unfold slice?
  rw [if_neg (Nat.not_lt.mpr (Nat.le_add_right _ _))]
  simp only [bind, Except.bind, houter, hinner]
  rfl

/-- The token is the piece of the source between its two ends, and no position overflows on the way from the
one to the other. -/
structure Token.Stored (source : String) (token : Token) : Prop where
  slice : Text.slice? source.toList token.span.start.offset token.span.stop.offset =
    .ok token.text.toList
  counts : token.span.start.advancedBy? token.text.toList = .ok token.span.stop

theorem stored_of_mem_tokenize {source : String} {token : Token}
    (hsize : source.utf8ByteSize < Position.limit) (htoken : token ∈ tokenize source) :
    token.Stored source := by
  obtain ⟨before, behind, htext, hspan⟩ := Scan.exists_split_of_mem htoken
  have hoffset (text : List Char) : (Position.origin.advancedBy text).offset = Text.byteLength text := by
    rw [Text.advancedBy_offset]
    exact Nat.zero_add _
  constructor
  · rw [hspan, htext]
    simp only [hoffset, Text.byteLength_append]
    exact Text.slice?_append _ _ _
  · have hreached := Position.reached_origin.advancedBy before
    rw [hspan, Position.advancedBy_append]
    apply hreached.advancedBy?_eq
    rw [← Position.advancedBy_append, hoffset]
    rw [← Text.byteLength_toList, htext, ← List.append_assoc, Text.byteLength_append] at hsize
    omega

theorem TokenStream.drain_ofSource {source : String} (hsize : source.utf8ByteSize < Position.limit) :
    ∃ stream, (TokenStream.ofSource source).drain = .ok (tokenize source, stream) := by
  have hwhole : source.toList = [] ++ source.toList := rfl
  exact drain_startingAt hwhole rfl hsize

theorem Token.Run.length_le {p q : Position} {tokens : List Token} (h : Token.Run p tokens q) :
    p.offset + tokens.length ≤ q.offset := by
  induction tokens generalizing p with
  | nil => exact Nat.le_of_eq (congrArg Position.offset h.symm)
  | cons token tokens ih =>
      have hwidth := h.width
      obtain ⟨-, -, -, -, hrest⟩ := h
      have hlater := ih hrest
      rw [List.length_cons]
      omega

end ScriptSyntax
