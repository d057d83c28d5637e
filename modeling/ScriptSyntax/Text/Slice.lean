import ScriptSyntax.Position

/-!
Byte offsets into a text of characters.  A byte offset names a place in a text only if it falls between
two characters; `splitAtByte?` cuts a text there, and `splitAtByte?_eq_ok_iff` says that it does so
exactly when such a cut exists.
-/

namespace ScriptSyntax.Text

def byteLength (text : List Char) : Nat :=
  text.foldl (fun bytes c => bytes + c.utf8Size) 0

theorem foldl_byteLength (bytes : Nat) (text : List Char) :
    text.foldl (fun bytes c => bytes + c.utf8Size) bytes = bytes + byteLength text := by
  induction text generalizing bytes with
  | nil => rfl
  | cons c text ih =>
      simp only [byteLength, List.foldl_cons, ih (bytes + c.utf8Size), ih (0 + c.utf8Size)]
      omega

@[simp] theorem byteLength_nil : byteLength [] = 0 := rfl

@[simp] theorem byteLength_cons (c : Char) (text : List Char) :
    byteLength (c :: text) = c.utf8Size + byteLength text := by
  rw [byteLength, List.foldl_cons, foldl_byteLength, Nat.zero_add]

@[simp] theorem byteLength_append (first second : List Char) :
    byteLength (first ++ second) = byteLength first + byteLength second := by
  simp only [byteLength, List.foldl_append]
  rw [foldl_byteLength, byteLength]

theorem byteLength_toList (text : String) : byteLength text.toList = text.utf8ByteSize := by
  have hlist : ∀ chars : List Char, byteLength chars = (String.ofList chars).utf8ByteSize := by
    intro chars
    induction chars with
    | nil => rfl
    | cons c chars ih =>
        rw [byteLength_cons, ih, ← String.utf8ByteSize_singleton, ← String.utf8ByteSize_append,
          String.singleton_eq_ofList, ← String.ofList_append]
        rfl
  rw [hlist, String.ofList_toList]

theorem prefix_of_byteLength_le {text first before : List Char} (hfirst : first <+: text)
    (hbefore : before <+: text) (hle : byteLength first ≤ byteLength before) : first <+: before := by
  rcases List.prefix_or_prefix_of_prefix hfirst hbefore with hshort | ⟨more, rfl⟩
  · exact hshort
  · cases more with
    | nil => simp
    | cons c more =>
        have hwidth := c.utf8Size_pos
        rw [byteLength_append, byteLength_cons] at hle
        omega

theorem advancedBy_offset (p : Position) (text : List Char) :
    (p.advancedBy text).offset = p.offset + byteLength text := by
  induction text generalizing p with
  | nil => rfl
  | cons c text ih =>
      rw [Position.advancedBy_cons, ih, byteLength_cons]
      unfold Position.next
      split <;> simp [Nat.add_assoc]

/-- Moves `offset` bytes of the text onto `before`, which is kept in reverse. -/
def splitFrom (before : List Char) : List Char → Nat → Except Fault (List Char × List Char)
  | text, 0 => .ok (before.reverse, text)
  | [], _ + 1 => .error .outOfRange
  | c :: text, offset + 1 =>
      if c.utf8Size ≤ offset + 1 then splitFrom (c :: before) text (offset + 1 - c.utf8Size)
      else .error .insideCharacter

/-- The texts before and after a byte offset. -/
def splitAtByte? (text : List Char) (offset : Nat) : Except Fault (List Char × List Char) :=
  splitFrom [] text offset

theorem splitFrom_eq_ok_iff {done text first second : List Char} {offset : Nat} :
    splitFrom done text offset = .ok (first, second) ↔
      ∃ middle, first = done.reverse ++ middle ∧ text = middle ++ second ∧
        byteLength middle = offset := by
  fun_induction splitFrom done text offset with
  | case1 done text =>
      constructor
      · rintro ⟨⟩
        exact ⟨[], by simp⟩
      · rintro ⟨middle, hfirst, htext, hlength⟩
        cases middle with
        | nil => simp_all
        | cons c middle =>
            have := c.utf8Size_pos
            rw [byteLength_cons] at hlength
            omega
  | case2 done offset =>
      simp only [reduceCtorEq, false_iff, not_exists, not_and]
      rintro middle hfirst htext hlength
      have hmiddle : middle = [] := (List.append_eq_nil_iff.mp htext.symm).1
      simp [hmiddle] at hlength
  | case3 done c text offset hfits ih =>
      rw [ih]
      constructor
      · rintro ⟨middle, hfirst, htext, hlength⟩
        exact ⟨c :: middle, by simp [hfirst], by simp [htext], by simp [hlength]; omega⟩
      · rintro ⟨middle, hfirst, htext, hlength⟩
        cases middle with
        | nil => simp at hlength
        | cons d middle =>
            obtain ⟨rfl, htail⟩ := List.cons.inj htext
            exact ⟨middle, by simp [hfirst], htail, by simp at hlength; omega⟩
  | case4 done c text offset hfits =>
      simp only [reduceCtorEq, false_iff, not_exists, not_and]
      rintro middle hfirst htext hlength
      cases middle with
      | nil => simp at hlength
      | cons d middle =>
          obtain ⟨rfl, -⟩ := List.cons.inj htext
          simp at hlength
          omega

theorem splitAtByte?_eq_ok_iff {text first second : List Char} {offset : Nat} :
    splitAtByte? text offset = .ok (first, second) ↔
      text = first ++ second ∧ byteLength first = offset := by
  simp [splitAtByte?, splitFrom_eq_ok_iff]

/-- The offset falls between two characters of the text or at one of its ends. -/
def isBoundary (text : List Char) (offset : Nat) : Bool :=
  (splitAtByte? text offset).isOk

/-- The text between two byte offsets. -/
def slice? (text : List Char) (start stop : Nat) : Except Fault (List Char) :=
  if stop < start then .error .reversedSpan
  else do
    let (_, rest) ← splitAtByte? text start
    let (piece, _) ← splitAtByte? rest (stop - start)
    return piece

end ScriptSyntax.Text
