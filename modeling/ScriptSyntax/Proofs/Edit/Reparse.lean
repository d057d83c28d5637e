import ScriptSyntax.Edit.Reparse
import ScriptSyntax.Proofs.Parsing.Restart
import ScriptSyntax.Proofs.Token.Stored

/-!
Edits one after the other.  The parse of an edited text with the help of the earlier result is the parse of
the text alone, `reparse_parse`, and so it is after any number of edits.
-/

namespace ScriptSyntax

/-! ### One edit -/

theorem Edit.apply_spec {edit : Edit} {source edited : String} (h : edit.apply source = .ok edited) :
    ∃ same x y, source.toList = same ++ x ∧ edited.toList = same ++ y ∧
      Text.byteLength same = edit.start := by
  unfold Edit.apply at h
  split at h
  · cases h
  · split at h
    · cases h
    · split at h
      · cases h
      · cases h
      · rename_i same x _ behind hstart _
        obtain ⟨hsource, hlength⟩ := Text.splitAtByte?_eq_ok_iff.mp hstart
        split at h
        · cases h
        · obtain rfl := Except.ok.inj h
          refine ⟨same, x, edit.newText.toList ++ behind, hsource, ?_, hlength⟩
          simp

theorem lastWhole_le (statements : List Node) (index : Nat) : lastWhole statements index ≤ index := by
  induction index with
  | zero => exact Nat.le_refl _
  | succ index ih =>
      unfold lastWhole
      split
      · exact Nat.le_succ_of_le ih
      · exact Nat.le_refl _

theorem isError_lastWhole {statements : List Node} {index : Nat} {node : Node}
    (hnode : statements[lastWhole statements index]? = some node)
    (hlater : lastWhole statements index ≠ 0) : node.isError = false := by
  induction index with
  | zero => exact absurd rfl hlater
  | succ index ih =>
      unfold lastWhole at hnode hlater
      split at hnode
      · rename_i herror
        rw [if_pos herror] at hlater
        exact ih hnode hlater
      · rename_i hwhole
        simpa [hnode] using hwhole

/-- Behind the statements that an edit leaves there is one that is no error and that ends before the edit
too. -/
theorem exists_restart_of_reusable {root : Node} {editStart kept : Nat}
    (hkept : reusableStatements root editStart = kept) (hlater : kept ≠ 0) :
    ∃ restart, root.children[kept]? = some restart ∧ restart.isError = false ∧
      restart.span.stop.offset < editStart := by
  subst hkept
  -- one statement fewer is kept than end before the edit, so the next one ends before it too
  have hle : reusableStatements root editStart ≤
      (root.children.takeWhile (·.span.stop.offset < editStart)).length - 1 := lastWhole_le _ _
  have hbefore : reusableStatements root editStart <
      (root.children.takeWhile (·.span.stop.offset < editStart)).length := by omega
  have htaken := List.getElem?_eq_getElem hbefore
  have hmem := List.getElem_mem hbefore
  generalize (root.children.takeWhile (·.span.stop.offset < editStart))[reusableStatements root
    editStart] = restart at htaken hmem
  have hnode : root.children[reusableStatements root editStart]? = some restart := by
    obtain ⟨rest, hrest⟩ := List.takeWhile_prefix (l := root.children)
      (p := fun child : Node => decide (child.span.stop.offset < editStart))
    rw [← hrest, List.getElem?_append_left hbefore]
    exact htaken
  exact ⟨restart, hnode, isError_lastWhole hnode hlater, by simpa using List.mem_takeWhile_imp hmem⟩

section
variable {source edited : String} {options : Options}

/-- A parse that starts again at a statement before the place where two texts differ gives what the whole
text gives. -/
theorem parseFrom_parse {same x y : List Char} {kept : Nat} {restart : Node}
    (hsource : source.toList = same ++ x) (hedited : edited.toList = same ++ y)
    (hsize : edited.utf8ByteSize < Position.limit)
    (hrestart : (parse source options).root.children[kept]? = some restart) (hkept : kept ≠ 0)
    (hwhole : restart.isError = false) (hstop : restart.span.stop.offset < Text.byteLength same) :
    parseFrom edited (parse source options) kept restart.span.start options =
      .ok (parse edited options) := by
  have hbefore : restart.span.stop.offset < (Position.origin.advancedBy same).offset := by
    rw [Text.advancedBy_offset]
    exact Nat.lt_of_lt_of_le hstop (Nat.le_add_left _ _)
  obtain ⟨before, known, result, rfl, hstart, hresult, hparse⟩ :=
    parse_eq_of_restart hsource hedited hrestart hkept hwhole hbefore
  rw [List.append_assoc] at hedited
  obtain ⟨stream, hdrain⟩ := TokenStream.drain_startingAt hedited hstart hsize
  rw [parseFrom, hdrain, hparse, ← hresult]
  rfl

theorem reparse_parse {edit : Edit} (hedit : edit.apply source = .ok edited)
    (hsize : edited.utf8ByteSize < Position.limit) :
    reparse source (parse source options) edit options = .ok (edited, parse edited options) := by
  obtain ⟨same, x, y, hsource, hedited, hstart⟩ := Edit.apply_spec hedit
  simp only [reparse, hedit, bind, Except.bind]
  cases hkept : reusableStatements (parse source options).root edit.start with
  | zero => rfl
  | succ kept =>
      obtain ⟨restart, hrestart, hwhole, hstop⟩ :=
        exists_restart_of_reusable hkept (Nat.succ_ne_zero kept)
      have hparse := parseFrom_parse hsource hedited hsize hrestart (Nat.succ_ne_zero kept) hwhole
        (hstart ▸ hstop)
      simp only [hrestart, hparse]
      rfl

end

/-! ### Edits in a row -/

/-- The texts after each of some edits made one after the other. -/
def Edit.applyAll (source : String) : List Edit → Except EditError (List String)
  | [] => .ok []
  | edit :: edits => do
      let edited ← edit.apply source
      let later ← applyAll edited edits
      return edited :: later

theorem Edit.applyAll_cons_eq_ok {source : String} {edit : Edit} {edits : List Edit}
    {texts : List String} :
    applyAll source (edit :: edits) = .ok texts ↔
      ∃ edited later, edit.apply source = .ok edited ∧ applyAll edited edits = .ok later ∧
        edited :: later = texts := by
  rw [applyAll]
  cases edit.apply source with
  | error e => simp [bind, Except.bind]
  | ok edited =>
      cases hlater : applyAll edited edits <;>
        simp [bind, Except.bind, pure, Except.pure, hlater]

/-- The texts and the results after each of some edits, each parsed with the help of the result before
it. -/
def reparseAll (source : String) (old : ParseResult) (options : Options) :
    List Edit → Except EditError (List (String × ParseResult))
  | [] => .ok []
  | edit :: edits => do
      let (edited, result) ← reparse source old edit options
      let later ← reparseAll edited result options edits
      return (edited, result) :: later

/-- After any number of edits in a row the texts are the edited ones, and each result is the parse of its
text alone.  The place behind a text has to be one that can be stored. -/
theorem reparseAll_parse {source : String} {edits : List Edit} {texts : List String} (options : Options)
    (hedits : Edit.applyAll source edits = .ok texts)
    (hsizes : ∀ text ∈ source :: texts, text.utf8ByteSize < Position.limit) :
    reparseAll source (parse source options) options edits =
      .ok (texts.map fun text => (text, parse text options)) := by
  induction edits generalizing source texts with
  | nil =>
      obtain rfl := Except.ok.inj hedits
      rfl
  | cons edit edits ih =>
      obtain ⟨edited, later, hedit, hlater, rfl⟩ := Edit.applyAll_cons_eq_ok.mp hedits
      have hsizes' := (List.forall_mem_cons.mp hsizes).2
      have hsize : edited.utf8ByteSize < Position.limit := hsizes' edited (by simp)
      -- the result of the step is a parse of its text again, so the other edits start as this one did
      rw [reparseAll, reparse_parse hedit hsize]
      show (do
        let results ← reparseAll edited (parse edited options) options edits
        return (edited, parse edited options) :: results) = _
      rw [ih hlater hsizes']
      rfl

/-- Two edits that both keep the first statement: the call that the one leaves open is closed by the
other. -/
theorem reparseAll_open_call :
    Edit.applyAll "a\nb\nc" [⟨4, 1, "d(", 2⟩, ⟨6, 0, ")", 1⟩] = .ok ["a\nb\nd(", "a\nb\nd()"] ∧
      reparseAll "a\nb\nc" (parse "a\nb\nc" {}) {} [⟨4, 1, "d(", 2⟩, ⟨6, 0, ")", 1⟩] =
        .ok [("a\nb\nd(", parse "a\nb\nd(" {}), ("a\nb\nd()", parse "a\nb\nd()" {})] := by
  have hedits : Edit.applyAll "a\nb\nc" [⟨4, 1, "d(", 2⟩, ⟨6, 0, ")", 1⟩] =
      .ok ["a\nb\nd(", "a\nb\nd()"] := by decide
  exact ⟨hedits, reparseAll_parse {} hedits (by decide)⟩

end ScriptSyntax
