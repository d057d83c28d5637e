import ScriptSyntax.Proofs.Parsing.Complaints
import ScriptSyntax.Proofs.Parsing.Covered

/-!
Blocks that the file ends in.  An error node in the place of a body stands for such a block: it begins at the brace
that opens the block and ends with the last token of the source, and the brace is reported once, `open_blocks`.
-/

namespace ScriptSyntax

/-- The node in the place of the body, for the forms that have one. -/
def Node.body? (n : Node) : Option Node :=
  match n.kind with
  | .functionDecl | .macroDecl | .lambda | .forStmt | .elifClause | .elseClause => n.children.getLast?
  | .ifStmt => n.children[1]?
  | _ => none

/-- The last token of a source, not counting blanks, comments and the end of the file. -/
def lastToken? (source : String) : Option Token :=
  ((tokenize source).filter fun t => !t.kind.isTrivia && t.kind ≠ .endOfFile).getLast?

theorem exists_lastToken {source : String} {options : Options} {slot : Slot}
    (hslot : slot ∈ (State.ofSource source options).rest) (p : Position) :
    ∃ last, lastToken? source = some last ∧
      Slot.endAfter p (State.ofSource source options).rest = last.span.stop := by
  obtain ⟨last, hlast⟩ := Option.isSome_iff_exists.mp (List.getLast?_isSome.mpr (List.ne_nil_of_mem hslot))
  refine ⟨last.token, ?_, ?_⟩
  · rw [lastToken?, significant_tokenize, ← rest_ofSource source options, List.getLast?_map, hlast]
    rfl
  · rw [Slot.endAfter_eq, hlast]
    rfl

/-- The report of a brace that opens a block which is not closed. -/
def openReport (brace : Span) : Diagnostic := .ofError ⟨.unterminatedBlock brace.start.line, brace⟩

/-- The node stands for a block that the file ends in, in a parse from the state `first` on, and its brace is
reported. -/
structure Node.IsOpenBlock (first : State) (reports : List Diagnostic) (n : Node) : Prop where
  brace : ∃ brace : Span, n.span.start = brace.start ∧ openReport brace ∈ reports
  stop : n.span.stop = Slot.endAfter first.previousEnd first.rest

section
variable {last eof : Nat} {first s s' : State} {body : Node}

theorem Node.IsOpenBlock.later {reports reports' : List Diagnostic} (h : body.IsOpenBlock first reports)
    (hlater : reports <:+ reports') : body.IsOpenBlock first reports' := by
  obtain ⟨brace, hstart, hreport⟩ := h.brace
  exact ⟨⟨brace, hstart, hlater.subset hreport⟩, h.stop⟩

theorem Reads.isOpenBlock (h : Reads false .block [body] s s') (hs : first.Within s) (hfirst : first.Bounded last eof)
    (herror : body.kind = .errorNode) : body.IsOpenBlock first s'.reports := by
  cases h with
  | block => cases herror
  | @openBlock _ _ s₁ _ _ hbody hclosing =>
      have hinside := hs.entered.advanced.opened .rightBrace rfl false
      have hend := hinside.reads hbody
      have hfile : s₁.kind = .endOfFile := by
        simpa [Parser.atListEnd, hclosing] using hbody.atListEnd true rfl
      have hrest := (hend.bounded hfirst).rest_of_kind hfile
      obtain ⟨passed, hpassed, hstop⟩ := hend.passes
      rw [hrest, List.append_nil] at hpassed
      refine ⟨⟨s.current.span, rfl, List.mem_cons_self⟩, ?_⟩
      rw [hpassed]
      exact hstop

/-- The bodies of a node that are error nodes stand for open blocks. -/
def Node.BodyOpens (first : State) (reports : List Diagnostic) (n : Node) : Prop :=
  ∀ body ∈ n.body?, body.kind = .errorNode → body.IsOpenBlock first reports

theorem Reads.bodyOpens {part : Part} {n : Node} (h : Reads false part [n] s s') (hmakes : part.makes)
    (hs : first.Within s) (hfirst : first.Bounded last eof) : n.BodyOpens first s'.reports := by
  cases h with
  | lambda _ hparameters hbody =>
      rintro _ ⟨⟩ herror
      exact hbody.isOpenBlock (hs.advanced.reads hparameters) hfirst herror
  | functionDecl hwords _ hparameters hbody =>
      rintro _ ⟨⟩ herror
      exact hbody.isOpenBlock ((hs.words hwords).advanced.reads hparameters) hfirst herror
  | macroDecl _ _ hparameters hbody =>
      rintro _ ⟨⟩ herror
      exact hbody.isOpenBlock (hs.advanced.advanced.reads hparameters) hfirst herror
  | forStmt _ hcondition hbody | elifClause _ hcondition hbody =>
      rintro _ ⟨⟩ herror
      exact hbody.isOpenBlock (hs.advanced.reads hcondition) hfirst herror
  | ifStmt _ hcondition hbody hclauses =>
      rintro _ ⟨⟩ herror
      exact (hbody.isOpenBlock (hs.advanced.reads hcondition) hfirst herror).later hclauses.advances.reports
  | elseClause _ hbody =>
      rintro _ ⟨⟩ herror
      exact hbody.isOpenBlock hs.advanced hfirst herror
  | literal hkind =>
      obtain ⟨-, rfl⟩ | ⟨-, rfl⟩ | ⟨-, rfl⟩ := Parser.literalKind?_cases hkind
      all_goals exact nofun
  | @operation _ _ _ form => cases form <;> exact nofun
  | assign _ hkind | misassign _ hkind =>
      obtain ⟨-, rfl⟩ | ⟨-, rfl⟩ | ⟨-, rfl⟩ := Parser.assignmentKind?_cases hkind
      all_goals exact nofun
  | _ =>
      intro _ hbody
      first | cases hbody | cases hmakes

theorem lasting_bodyOpens (hfirst : first.Bounded last eof) :
    Lasting first fun reports n => n.BodyOpens first reports where
  later hlater h body hbody herror := (h body hbody herror).later hlater
  name _ _ _ := nofun
  string _ _ _ := nofun
  path _ _ _ _ _ := nofun
  gap _ _ := nofun
  wrapping _ _ := nofun
  made hs _ hmakes h := h.bodyOpens hmakes hs hfirst

end

/-! ### The open blocks of a source -/

theorem isComplaint_of_name {d : Diagnostic} (hname : d.name = "UnterminatedBlock") : d.isComplaint := by
  simp [Diagnostic.isComplaint, hname]

theorem Token.leftBrace_of_complaint? {t : Token} {d : Diagnostic} (h : t.complaint? = some d)
    (hname : d.name = "UnterminatedBlock") : t.kind = .leftBrace ∧ d = openReport t.span := by
  unfold complaint? at h
  split at h
  · rename_i e _
    cases h
    cases e
    · exact absurd (show "UnterminatedString" = "UnterminatedBlock" from hname) (by decide)
    · exact absurd (show "IllegalCharacter" = "UnterminatedBlock" from hname) (by decide)
  · rename_i hkind
    cases h
    exact ⟨hkind, rfl⟩
  · cases h

theorem Diagnostic.eq_singleton {d : Diagnostic} {ds : List Diagnostic} (hapart : ds.Pairwise Apart) (hd : d ∈ ds)
    (hsame : ∀ e ∈ ds, e.span.start.offset = d.span.start.offset) : ds = [d] := by
  match ds with
  | [] => cases hd
  | [e] => rw [List.mem_singleton.mp hd]
  | e :: e' :: ds =>
      obtain ⟨hfirst, -⟩ := List.pairwise_cons.mp hapart
      have hsecond := hsame e' (List.mem_cons_of_mem _ List.mem_cons_self)
      exact absurd ((hsame e List.mem_cons_self).trans hsecond.symm) (hfirst e' List.mem_cons_self)

/-- The error node in the place of a body begins at a brace and ends with the last token of the source.  One
diagnostic about open blocks starts where it begins, the one that tells the line of the brace, and no two of these
diagnostics start at the same place. -/
theorem open_blocks (source : String) (options : Options) :
    (∀ n ∈ (parse source options).root.preorder, ∀ body ∈ n.body?, body.kind = .errorNode →
      ∃ t ∈ tokenize source, t.kind = .leftBrace ∧ body.span.start = t.span.start ∧
        (∃ last, lastToken? source = some last ∧ body.span.stop = last.span.stop) ∧
        (parse source options).diagnostics.filter (fun d => d.name = "UnterminatedBlock" ∧
          d.span.start.offset = body.span.start.offset) =
            [.ofError ⟨.unterminatedBlock body.span.start.line, t.span⟩]) ∧
    ((parse source options).diagnostics.filter (·.name = "UnterminatedBlock")).Pairwise
      fun d d' => d.span.start.offset ≠ d'.span.start.offset := by
  refine ⟨?_, apart_complaints source options fun d hd => isComplaint_of_name (of_decide_eq_true hd)⟩
  intro n hn body hbody herror
  obtain ⟨nodes, s', hroot, hdiagnostics, hreads, -⟩ := parse_reads source options
  have hbounded := bounded_ofSource source options
  have hbelow := hreads.lasts (lasting_bodyOpens hbounded) (State.regular_ofSource source options).within
    trivial nofun
  have hopen : body.IsOpenBlock (State.ofSource source options) s'.reports := by
    rw [hroot] at hn
    rcases Node.mem_preorder.mp hn with rfl | ⟨child, hchild, hn⟩
    · cases hbody
    · exact hbelow child hchild n hn body hbody herror
  obtain ⟨brace, hstart, hreport⟩ := hopen.brace
  have hmem : openReport brace ∈ (parse source options).diagnostics := by
    rw [hdiagnostics, State.diagnostics, (Diagnostic.inSourceOrder_perm _).mem_iff]
    exact List.mem_reverse.mpr hreport
  obtain ⟨t, ht, hcauses⟩ := exists_token_of_isComplaint hmem (isComplaint_of_name rfl)
  obtain ⟨hkind, -⟩ := Token.leftBrace_of_complaint? hcauses rfl
  have hspan : brace = t.span := Token.span_of_complaint? hcauses
  refine ⟨t, ht, hkind, hspan ▸ hstart, ?_, ?_⟩
  · obtain ⟨slot, hslot, -⟩ := exists_slot_of_mem_tokenize options ht (by rw [hkind]; rfl)
    rw [hopen.stop]
    exact exists_lastToken hslot _
  · have hreport : Diagnostic.ofError ⟨.unterminatedBlock body.span.start.line, t.span⟩ = openReport brace := by
      rw [hstart, ← hspan, openReport]
    rw [hreport]
    refine Diagnostic.eq_singleton (apart_complaints source options ?_) (List.mem_filter.mpr ⟨hmem, ?_⟩) ?_
    · intro d hd
      exact isComplaint_of_name (of_decide_eq_true hd).1
    · rw [hstart]
      exact decide_eq_true ⟨rfl, rfl⟩
    · intro d hd
      obtain ⟨-, hd⟩ := List.mem_filter.mp hd
      exact (of_decide_eq_true hd).2.trans (congrArg Position.offset hstart)

theorem open_blocks_nested :
    ∃ n ∈ (parse "fn f() \x7b\n if a \x7b y " {}).root.preorder, n.kind = .ifStmt ∧
      ∃ body ∈ n.body?, body.kind = .errorNode ∧
        ∃ t ∈ tokenize "fn f() \x7b\n if a \x7b y ", t.kind = .leftBrace ∧ body.span.start = t.span.start ∧
          (∃ last, lastToken? "fn f() \x7b\n if a \x7b y " = some last ∧ body.span.stop = last.span.stop) ∧
          (parse "fn f() \x7b\n if a \x7b y " {}).diagnostics.filter (fun d => d.name = "UnterminatedBlock" ∧
            d.span.start.offset = body.span.start.offset) =
              [.ofError ⟨.unterminatedBlock body.span.start.line, t.span⟩] := by
  have hopen : ∃ n ∈ (parse "fn f() \x7b\n if a \x7b y " {}).root.preorder, n.kind = .ifStmt ∧
      ∃ body ∈ n.body?, body.kind = .errorNode := by
    decide +kernel
  obtain ⟨n, hn, hkind, body, hbody, herror⟩ := hopen
  obtain ⟨hblocks, -⟩ := open_blocks "fn f() \x7b\n if a \x7b y " {}
  exact ⟨n, hn, hkind, body, hbody, herror, hblocks n hn body hbody herror⟩

end ScriptSyntax
