import ScriptSyntax.Edit.Basic

/-!
Edits and their inverses.  An edit is made exactly if it passes its checks, of which the first that does not hold
gives the error, and the edit of the edited text that puts the replaced bytes back passes its checks too:
`Edit.apply_checks_inverse`.
-/

namespace ScriptSyntax

theorem Text.utf8ByteSize_ofList (text : List Char) :
    (String.ofList text).utf8ByteSize = Text.byteLength text := by
  rw [← Text.byteLength_toList, String.toList_ofList]

theorem Text.exists_splitAtByte?_iff {source : String} {offset : Nat} :
    (∃ parts, Text.splitAtByte? source.toList offset = .ok parts) ↔
      (⟨offset⟩ : String.Pos.Raw).IsValid source := by
  rw [String.Pos.Raw.isValid_iff_exists_append]
  constructor
  · rintro ⟨⟨first, second⟩, hparts⟩
    obtain ⟨htext, hlength⟩ := Text.splitAtByte?_eq_ok_iff.mp hparts
    refine ⟨String.ofList first, String.ofList second, ?_, ?_⟩
    · rw [← String.ofList_append, ← htext, String.ofList_toList]
    · rw [← hlength, ← Text.utf8ByteSize_ofList]
      rfl
  · rintro ⟨first, second, rfl, hoffset⟩
    refine ⟨(first.toList, second.toList), Text.splitAtByte?_eq_ok_iff.mpr ⟨String.toList_append, ?_⟩⟩
    rw [Text.byteLength_toList]
    exact (congrArg String.Pos.Raw.byteIdx hoffset).symm

/-- The error is that of the first check that does not hold. -/
def FirstFailing : List (Prop × EditError) → EditError → Prop
  | [], _ => False
  | (check, failure) :: checks, error =>
      ¬check ∧ error = failure ∨ check ∧ FirstFailing checks error

theorem forall_not_firstFailing_iff {checks : List (Prop × EditError)} :
    (∀ error, ¬FirstFailing checks error) ↔ ∀ check ∈ checks, check.1 := by
  induction checks with
  | nil => simp [FirstFailing]
  | cons check checks ih =>
      rw [List.forall_mem_cons, ← ih]
      constructor
      · intro hnone
        have hcheck : check.1 := Classical.not_not.mp fun hfails => hnone check.2 (.inl ⟨hfails, rfl⟩)
        exact ⟨hcheck, fun error hfirst => hnone error (.inr ⟨hcheck, hfirst⟩)⟩
      · rintro ⟨hcheck, hnone⟩ error (⟨hfails, -⟩ | ⟨-, hfirst⟩)
        · exact hfails hcheck
        · exact hnone error hfirst

namespace Edit

/-- What an edit of a text has to pass, in the order of the checks, each with the error that says it does not. -/
def checks (e : Edit) (source : String) : List (Prop × EditError) :=
  [(e.stop ≤ source.utf8ByteSize, .outOfBounds e.start e.stop source.utf8ByteSize),
    ((⟨e.start⟩ : String.Pos.Raw).IsValid source, .offBoundary e.start),
    ((⟨e.stop⟩ : String.Pos.Raw).IsValid source, .offBoundary e.stop),
    (e.newText.utf8ByteSize = e.newLength, .lengthMismatch e.newLength e.newText.utf8ByteSize)]

/-- The edit of the edited text that puts back what the edit replaced. -/
def inverse (e : Edit) (replaced : String) : Edit :=
  { start := e.start, oldLength := e.newLength, newText := replaced }

variable {e : Edit} {source edited : String}

theorem apply_eq_error_iff (hstop : e.stop ≤ sumLimit) {error : EditError} :
    e.apply source = .error error ↔ FirstFailing (e.checks source) error := by
  have hcut {offset : Nat} {fault : Fault} (h : Text.splitAtByte? source.toList offset = .error fault) :
      ¬(⟨offset⟩ : String.Pos.Raw).IsValid source := by
    intro hvalid
    obtain ⟨parts, hparts⟩ := Text.exists_splitAtByte?_iff.mpr hvalid
    rw [h] at hparts
    cases hparts
  unfold apply checks
  rw [if_neg (Nat.not_lt.mpr hstop)]
  by_cases hbounds : e.stop ≤ source.utf8ByteSize
  · rw [if_neg (Nat.not_lt.mpr hbounds)]
    cases hbefore : Text.splitAtByte? source.toList e.start with
    | error => simp [FirstFailing, hbounds, hcut hbefore, eq_comm]
    | ok first =>
        have hfirst := Text.exists_splitAtByte?_iff.mp ⟨first, hbefore⟩
        cases hbehind : Text.splitAtByte? source.toList e.stop with
        | error => simp [FirstFailing, hbounds, hfirst, hcut hbehind, eq_comm]
        | ok second =>
            have hsecond := Text.exists_splitAtByte?_iff.mp ⟨second, hbehind⟩
            by_cases hlength : e.newText.utf8ByteSize = e.newLength
            · simp [FirstFailing, hbounds, hfirst, hsecond, hlength]
            · simp [FirstFailing, hbounds, hfirst, hsecond, hlength, eq_comm]
  · rw [if_pos (Nat.lt_of_not_le hbounds)]
    simp [FirstFailing, hbounds, eq_comm]

theorem exists_apply_iff (hstop : e.stop ≤ sumLimit) :
    (∃ edited, e.apply source = .ok edited) ↔ ∀ check ∈ e.checks source, check.1 := by
  rw [← forall_not_firstFailing_iff]
  cases h : e.apply source with
  | ok edited =>
      refine iff_of_true ⟨edited, rfl⟩ fun error hfirst => ?_
      rw [(apply_eq_error_iff hstop).mpr hfirst] at h
      cases h
  | error error =>
      refine iff_of_false (fun ⟨_, hedited⟩ => by cases hedited) fun hnone => ?_
      exact hnone error ((apply_eq_error_iff hstop).mp h)

theorem exists_parts (h : e.apply source = .ok edited) :
    ∃ before replaced behind : String, source = before ++ replaced ++ behind ∧
      before.utf8ByteSize = e.start ∧ replaced.utf8ByteSize = e.oldLength ∧
      e.newText.utf8ByteSize = e.newLength ∧ edited = before ++ e.newText ++ behind := by
  unfold apply at h
  split at h
  · cases h
  · split at h
    · cases h
    · split at h
      · cases h
      · cases h
      · rename_i before behind' whole behind hstart hstop
        obtain ⟨hsource, hbefore⟩ := Text.splitAtByte?_eq_ok_iff.mp hstart
        obtain ⟨hsource', hwhole⟩ := Text.splitAtByte?_eq_ok_iff.mp hstop
        split at h
        · cases h
        · rename_i hlength
          obtain rfl := Except.ok.inj h
          have hle : Text.byteLength before ≤ Text.byteLength whole := by
            rw [hbefore, hwhole]
            exact Nat.le_add_right _ _
          obtain ⟨replaced, rfl⟩ := Text.prefix_of_byteLength_le ⟨behind', hsource.symm⟩
            ⟨behind, hsource'.symm⟩ hle
          rw [Text.byteLength_append, hbefore, stop, Nat.add_left_cancel_iff] at hwhole
          refine ⟨String.ofList before, String.ofList replaced, String.ofList behind, ?_, ?_, ?_,
            Classical.not_not.mp hlength, rfl⟩
          · rw [← String.ofList_append, ← String.ofList_append, ← hsource', String.ofList_toList]
          · rw [Text.utf8ByteSize_ofList, hbefore]
          · rw [Text.utf8ByteSize_ofList, hwhole]

theorem apply_parts {before replaced behind : String} (hstop : e.stop ≤ sumLimit)
    (hbefore : before.utf8ByteSize = e.start) (hreplaced : replaced.utf8ByteSize = e.oldLength)
    (hlength : e.newText.utf8ByteSize = e.newLength) :
    e.apply (before ++ replaced ++ behind) = .ok (before ++ e.newText ++ behind) := by
  have hwhole : (before ++ replaced).utf8ByteSize = e.stop := by
    rw [String.utf8ByteSize_append, hbefore, hreplaced, stop]
  have hbounds : e.stop ≤ (before ++ replaced ++ behind).utf8ByteSize := by
    rw [String.utf8ByteSize_append, hwhole]
    exact Nat.le_add_right _ _
  have hfirst : Text.splitAtByte? (before ++ replaced ++ behind).toList e.start =
      .ok (before.toList, (replaced ++ behind).toList) := by
    rw [Text.splitAtByte?_eq_ok_iff, Text.byteLength_toList, ← String.toList_append, String.append_assoc]
    exact ⟨rfl, hbefore⟩
  have hsecond : Text.splitAtByte? (before ++ replaced ++ behind).toList e.stop =
      .ok ((before ++ replaced).toList, behind.toList) := by
    rw [Text.splitAtByte?_eq_ok_iff, Text.byteLength_toList, ← String.toList_append]
    exact ⟨rfl, hwhole⟩
  rw [apply, if_neg (Nat.not_lt.mpr hstop), if_neg (Nat.not_lt.mpr hbounds), hfirst, hsecond]
  simp [hlength]

/-- An edit is made exactly if it passes its checks, and the first that it does not pass gives the error.  The
edited text has the new text in the place of the bytes that the edit replaces, and the inverse edit with these bytes
gives the text back, as long as the edited text has no more bytes than the machine can count. -/
theorem apply_checks_inverse (source : String) (hstop : e.stop ≤ sumLimit) :
    ((∃ edited, e.apply source = .ok edited) ↔ ∀ check ∈ e.checks source, check.1) ∧
    (∀ error, e.apply source = .error error ↔ FirstFailing (e.checks source) error) ∧
    ∀ edited, e.apply source = .ok edited →
      ∃ before replaced behind : String, source = before ++ replaced ++ behind ∧
        before.utf8ByteSize = e.start ∧ replaced.utf8ByteSize = e.oldLength ∧
        edited = before ++ e.newText ++ behind ∧
        (edited.utf8ByteSize ≤ sumLimit → (e.inverse replaced).apply edited = .ok source) := by
  refine ⟨exists_apply_iff hstop, fun error => apply_eq_error_iff hstop, fun edited hedited => ?_⟩
  obtain ⟨before, replaced, behind, rfl, hbefore, hreplaced, hlength, rfl⟩ := exists_parts hedited
  refine ⟨before, replaced, behind, rfl, hbefore, hreplaced, rfl, fun hsize => ?_⟩
  refine apply_parts (e := e.inverse replaced) ?_ hbefore hlength rfl
  rw [String.utf8ByteSize_append, String.utf8ByteSize_append, hbefore, hlength] at hsize
  exact Nat.le_trans (Nat.le_add_right _ _) hsize

theorem apply_checks_inverse_wide :
    (∀ check ∈ checks ⟨1, 2, "öß", 4⟩ "aéb", check.1) ∧
      FirstFailing (checks ⟨2, 1, "e", 2⟩ "aéb") (.offBoundary 2) ∧
      ∃ replaced : String, replaced.utf8ByteSize = 2 ∧
        (inverse ⟨1, 2, "öß", 4⟩ replaced).apply "aößb" = .ok "aéb" := by
  have hedited : apply ⟨1, 2, "öß", 4⟩ "aéb" = .ok "aößb" := rfl
  have hinside : apply ⟨2, 1, "e", 2⟩ "aéb" = .error (.offBoundary 2) := rfl
  obtain ⟨hmade, -, hparts⟩ := apply_checks_inverse (e := ⟨1, 2, "öß", 4⟩) "aéb" (by decide)
  obtain ⟨-, hfails, -⟩ := apply_checks_inverse (e := ⟨2, 1, "e", 2⟩) "aéb" (by decide)
  obtain ⟨before, replaced, behind, -, -, hreplaced, -, hinverse⟩ := hparts "aößb" hedited
  exact ⟨hmade.mp ⟨"aößb", hedited⟩, (hfails _).mp hinside, replaced, hreplaced,
    hinverse (by decide +kernel)⟩

end Edit

end ScriptSyntax
