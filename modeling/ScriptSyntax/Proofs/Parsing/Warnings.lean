import ScriptSyntax.Proofs.Diagnostic.Order
import ScriptSyntax.Proofs.Parsing.Twice

/-!
Warnings about comments.  They are only given: whether they are asked for changes neither the tree nor an error,
`warnings_only_report`.
-/

namespace ScriptSyntax

/-- What is no error is a warning about a comment, and warnings are asked for. -/
def State.Fair (s : State) : Prop :=
  ∀ d ∈ s.reports, d.isError ∨ s.options.warnComments = true ∧ ∃ span, d = State.commentWarning span

namespace State.Fair

variable {s : State}

theorem noted (h : s.Fair) (slot : Slot) : (s.noted slot).Fair := by
  unfold State.noted
  split
  · split
    · rename_i hasked
      rw [Bool.and_eq_true] at hasked
      exact List.forall_mem_cons.mpr ⟨.inr ⟨hasked.1, _, rfl⟩, h⟩
    · exact h
  · exact h

theorem advanced (h : s.Fair) : s.advanced.Fair := by
  unfold State.advanced
  split
  · exact h
  · rename_i slot rest hrest
    have hnoted := h.noted slot
    intro d hd
    rcases hnoted d hd with herror | ⟨hasked, hcomment⟩
    · exact .inl herror
    · exact .inr ⟨hasked, hcomment⟩

end State.Fair

namespace Parser

instance steps_fair : Steps (fun s s' => s.Fair → s'.Fair) where
  refl _ := id
  trans h h' := h' ∘ h
  advanced _ := State.Fair.advanced
  reported _ _ hd h := List.forall_mem_cons.mpr ⟨.inl hd, h⟩
  logged _ _ := id
  closed := id
  leaving := id

instance keeps_fair_enterNesting : Keeps (fun s s' => s.Fair → s'.Fair) enterNesting where
  leads s := by
    unfold finalState
    rw [run_enterNesting]
    by_cases hdeep : nestingLimit ≤ s.depth
    · rw [if_pos hdeep]
      exact id
    · rw [if_neg hdeep]
      exact id

end Parser

theorem State.fair_of_statements {options : Options} {text : List Char} {body : List Node} {s : State}
    (hrun : Parser.statementList Parser.statement false (State.ofText options Position.origin text) =
      .ok body s) : s.Fair ∧ s.options = options := by
  have hfair := Parser.Keeps.of_ok (R := fun s s' => s.Fair → s'.Fair) _ hrun
  have hadvances := Parser.Forward.advances_of_ok _ hrun
  rw [State.ofText_eq] at hfair hadvances
  exact ⟨hfair nofun, hadvances.options⟩

theorem Pairing.Diagnostics.name_ne {pairing : Pairing} {d d' : Diagnostic}
    (h : pairing.Diagnostics d d') (herror : d.isError) : d.name ≠ "CommentInExpression" := by
  have hcause : ∀ cause : Cause, cause.name ≠ "CommentInExpression" := by
    intro cause
    cases cause <;> simp [Cause.name]
  cases h with
  | error herrors => exact hcause _
  | @gap found _ _ comment => cases comment <;> exact hcause (.expectedExpression found)
  | warning => exact absurd herror Bool.false_ne_true

/-- Whether comments are warned about makes no difference but for the warnings: the tree is the same, and so
are the other diagnostics, their order and their notes. -/
theorem warnings_only_report (source : String) :
    (parse source ⟨false⟩).root = (parse source ⟨true⟩).root ∧
      (parse source ⟨false⟩).diagnostics =
        (parse source ⟨true⟩).diagnostics.filter (·.name ≠ "CommentInExpression") := by
  obtain ⟨body, s, hrun, hresult⟩ := parseTokens_eq ⟨false⟩ Position.origin source.toList
  obtain ⟨body', t, hrun', hresult'⟩ := parseTokens_eq ⟨true⟩ Position.origin source.toList
  have halike : (Pairing.over source.toList false).Alike
      (State.ofText ⟨false⟩ Position.origin source.toList)
      (State.ofText ⟨true⟩ Position.origin source.toList) :=
    Pairing.alike_over fun hwarnings => absurd hwarnings Bool.false_ne_true
  obtain ⟨hbody, hstates⟩ := halike.statements hrun hrun'
  obtain ⟨hfair, hsilent⟩ := State.fair_of_statements hrun
  obtain ⟨hfair', -⟩ := State.fair_of_statements hrun'
  obtain ⟨later, hlater, hreports⟩ := hstates.reports
  obtain rfl : s.reports = later := hlater.trans (List.append_nil later)
  -- the run without warnings reports errors alone, the errors of the other run
  have hquiet : s.reports.filter (Pairing.over source.toList false).keeps = s.reports := by
    refine List.filter_eq_self.mpr fun d hd => ?_
    rcases hfair d hd with herror | ⟨hasked, -⟩
    · exact Bool.or_eq_true_iff.mpr (.inl herror)
    · rw [hsilent] at hasked
      cases hasked
  have herrors : s.reports = t.reports.filter (Pairing.over source.toList false).keeps := by
    rw [← List.forall₂_eq_eq_eq]
    rw [hquiet] at hreports
    exact hreports.imp fun _ _ hd => hd.eq_over
  have hkept : t.reports.filter (Pairing.over source.toList false).keeps =
      t.reports.filter (·.name ≠ "CommentInExpression") := by
    rw [hquiet, herrors, List.forall₂_same] at hreports
    refine List.filter_congr fun d hd => ?_
    rcases hfair' d hd with herror | ⟨-, span, rfl⟩
    · have hkeeps : (Pairing.over source.toList false).keeps d = true :=
        Bool.or_eq_true_iff.mpr (.inl herror)
      have hname := (hreports d (List.mem_filter.mpr ⟨hd, hkeeps⟩)).name_ne herror
      rw [hkeeps, decide_eq_true hname]
    · rfl
  rw [parse_eq_parseTokens, parse_eq_parseTokens, hresult, hresult', Pairing.eq_over hbody]
  constructor
  · rfl
  · show s.diagnostics = t.diagnostics.filter _
    rw [State.diagnostics, State.diagnostics, Diagnostic.filter_inSourceOrder, List.filter_reverse, herrors,
      hkept]

/-- A comment in a list is warned about or not, and one where an element is missing is noted in both runs. -/
example : (parse "[1 // one\n, // two" ⟨true⟩).diagnostics.map (·.name) =
      "CommentInExpression" :: (parse "[1 // one\n, // two" ⟨false⟩).diagnostics.map (·.name) ∧
    "comments are not expressions" ∈ (parse "[1 // one\n, // two" ⟨false⟩).diagnostics.flatMap (·.notes) := by
  decide +kernel

end ScriptSyntax
