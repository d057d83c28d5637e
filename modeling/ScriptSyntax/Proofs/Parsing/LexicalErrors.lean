import ScriptSyntax.Proofs.Parsing.Complaints
import ScriptSyntax.Proofs.Parsing.Covered
import ScriptSyntax.Proofs.Parsing.Outlined

/-!
Lexical errors in a tree and in its diagnostics.  A token that is a lexical error is read as an operand of its own or
is skipped with the statement that it breaks, and no other rule of the grammar takes it, `Reads.kept`: so it ends up
inside of an error node, `lexical_errors`.
-/

namespace ScriptSyntax

/-! ### Spans inside of error nodes -/

namespace Node

/-- Some error node of the tree has the span inside of its own. -/
def Shows (n : Node) (span : Span) : Prop :=
  ∃ m ∈ n.preorder, m.kind = .errorNode ∧ m.span.contains span

/-- Some tree of the list shows the span. -/
def ShownIn (span : Span) (nodes : List Node) : Prop :=
  ∃ n ∈ nodes, n.Shows span

variable {span : Span}

@[simp] theorem shownIn_nil : ¬ShownIn span [] := by
  simp [ShownIn]

@[simp] theorem shownIn_cons {n : Node} {nodes : List Node} :
    ShownIn span (n :: nodes) ↔ n.Shows span ∨ ShownIn span nodes := by
  simp [ShownIn]

@[simp] theorem shownIn_append {first second : List Node} :
    ShownIn span (first ++ second) ↔ ShownIn span first ∨ ShownIn span second := by
  simp [ShownIn, or_and_right, exists_or]

@[simp] theorem shows_mk {kind : NodeKind} {children : List Node} {place : Span} {literal : Option String} :
    Shows ⟨kind, children, place, literal⟩ span ↔
      kind = .errorNode ∧ place.contains span ∨ ShownIn span children := by
  have hroot : ∀ m, m ∈ preorder ⟨kind, children, place, literal⟩ ↔
      m = ⟨kind, children, place, literal⟩ ∨ ∃ child ∈ children, m ∈ child.preorder := fun _ => mem_preorder
  simp only [Shows, ShownIn, hroot]
  constructor
  · rintro ⟨m, rfl | ⟨child, hchild, hm⟩, herror⟩
    · exact .inl herror
    · exact .inr ⟨child, hchild, m, hm, herror⟩
  · rintro (herror | ⟨child, hchild, m, hm, herror⟩)
    · exact ⟨_, .inl rfl, herror⟩
    · exact ⟨m, .inr ⟨child, hchild, hm⟩, herror⟩

end Node

open Node (ShownIn)

/-! ### A token that is left or shown -/

/-- The token is a lexical error that is left, and the tokens left lie in order. -/
structure Slot.ErrsIn (slot : Slot) (s : State) : Prop where
  isError : ∃ e, slot.kind = .error e
  left : slot ∈ s.rest
  bounded : ∃ last eof, s.Bounded last eof

namespace Slot.ErrsIn

variable {slot : Slot} {s s' : State}

theorem kind_ne (h : slot.ErrsIn s) {kind : TokenKind} (hkind : ∀ e, kind ≠ .error e) : slot.kind ≠ kind := by
  obtain ⟨e, herror⟩ := h.isError
  exact fun hsame => hkind e (hsame.symm.trans herror)

theorem advances (h : slot.ErrsIn s) (hadvances : s.Advances s') (hleft : slot ∈ s'.rest) : slot.ErrsIn s' := by
  obtain ⟨last, eof, hs⟩ := h.bounded
  exact ⟨h.isError, hleft, last, eof, hs.advances hadvances⟩

theorem skipped (h : slot.ErrsIn s) (hadvances : s.Advances s') :
    (Node.error (s'.spanSince s.mark) []).Shows slot.token.span ∨ slot.ErrsIn s' := by
  obtain ⟨last, eof, hs⟩ := h.bounded
  rcases hs.left_or_behind hadvances.passes h.left with hleft | hbehind
  · exact .inr (h.advances hadvances hleft)
  · left
    have hfills := Node.fills_skipped hs hadvances
    obtain ⟨hstart, -, -⟩ := hs.ahead h.left
    have hbegins : (s'.spanSince s.mark).start.offset = s.place := hfills.start
    have hreaches : s'.behind ≤ (s'.spanSince s.mark).stop.offset := hfills.behind
    refine Node.shows_mk.mpr (.inl ⟨rfl, ?_⟩)
    simp only [Span.contains, Bool.and_eq_true, decide_eq_true_eq]
    omega

end Slot.ErrsIn

/-- The token is a lexical error that the trees show or that is left. -/
def Slot.Kept (slot : Slot) (nodes : List Node) (s : State) : Prop :=
  ShownIn slot.token.span nodes ∨ slot.ErrsIn s

namespace Slot.Kept

variable {slot : Slot} {nodes more : List Node} {s s' : State}

theorem mono (h : slot.Kept nodes s) (hleft : slot.ErrsIn s → slot.ErrsIn s') : slot.Kept nodes s' :=
  h.imp_right hleft

theorem same (h : slot.Kept nodes s) (hrest : s'.rest = s.rest) (hend : s'.previousEnd = s.previousEnd)
    (hfile : s'.endOfFile = s.endOfFile) : slot.Kept nodes s' := by
  refine h.mono fun herrs => ⟨herrs.isError, hrest ▸ herrs.left, ?_⟩
  obtain ⟨last, eof, hs⟩ := herrs.bounded
  exact ⟨last, eof, hs.of_passes ⟨[], hrest.symm, hend⟩ hfile⟩

theorem entered (h : slot.Kept nodes s) : slot.Kept nodes s.entered := h.same rfl rfl rfl

theorem leaving (h : slot.Kept nodes s) (depth : Nat) : slot.Kept nodes (s.leaving depth) := h.same rfl rfl rfl

theorem opened (h : slot.Kept nodes s) (closer : TokenKind) (expressionList : Bool) :
    slot.Kept nodes (s.opened closer expressionList) :=
  h.same rfl rfl rfl

theorem closed (h : slot.Kept nodes s) : slot.Kept nodes s.closed := h.same rfl rfl rfl

theorem reported (h : slot.Kept nodes s) (d : Diagnostic) : slot.Kept nodes (s.reported d) := h.same rfl rfl rfl

theorem begun (h : slot.Kept nodes s) : slot.Kept nodes s.begun := h.same rfl rfl rfl

theorem advanced (h : slot.Kept nodes s) (hkind : ∀ e, s.kind ≠ .error e) : slot.Kept nodes s.advanced := by
  refine h.mono fun herrs => herrs.advances s.advances_advanced ?_
  have hleft := herrs.left
  cases hrest : s.rest with
  | nil => simp [hrest] at hleft
  | cons first rest =>
      rw [hrest] at hleft
      rw [State.rest_advanced hrest]
      rcases List.mem_cons.mp hleft with rfl | hlater
      · exact absurd (State.kind_of_cons hrest).symm (herrs.kind_ne hkind)
      · exact hlater

theorem past (h : slot.Kept nodes s) {kind : TokenKind} (hkind : s.kind = kind) (hplain : ∀ e, kind ≠ .error e) :
    slot.Kept nodes s.advanced :=
  h.advanced (hkind ▸ hplain)

theorem pastNewlines (h : slot.Kept nodes s) : slot.Kept nodes s.pastNewlines := by
  refine h.mono fun herrs => herrs.advances s.advances_pastNewlines (State.mem_rest_pastWhile herrs.left ?_)
  exact decide_eq_false (herrs.kind_ne nofun)

theorem pastSeparators (h : slot.Kept nodes s) : slot.Kept nodes s.pastSeparators := by
  refine h.mono fun herrs => herrs.advances s.advances_pastSeparators (State.mem_rest_pastWhile herrs.left ?_)
  obtain ⟨e, herror⟩ := herrs.isError
  rw [herror]
  rfl

theorem append (h : slot.Kept nodes s) (hmore : slot.Kept [] s → slot.Kept more s') :
    slot.Kept (nodes ++ more) s' := by
  rcases h with hshown | herrs
  · exact .inl (Node.shownIn_append.mpr (.inl hshown))
  · exact (hmore (.inr herrs)).imp_left fun hshown => Node.shownIn_append.mpr (.inr hshown)

theorem cons (h : slot.Kept nodes s) (n : Node) : slot.Kept (n :: nodes) s :=
  h.imp_left fun hshown => Node.shownIn_cons.mpr (.inr hshown)

theorem below (h : slot.Kept nodes s) {kind : NodeKind} {span : Span} {literal : Option String} :
    slot.Kept [⟨kind, nodes, span, literal⟩] s :=
  h.imp_left fun hshown => Node.shownIn_cons.mpr (.inl (Node.shows_mk.mpr (.inr hshown)))

theorem lexicalError (h : slot.Kept [] s) : slot.Kept [Node.error s.current.span []] s.advanced := by
  rcases h with hnone | herrs
  · exact absurd hnone Node.shownIn_nil
  · have hleft := herrs.left
    cases hrest : s.rest with
    | nil => simp [hrest] at hleft
    | cons first rest =>
        rw [hrest] at hleft
        rcases List.mem_cons.mp hleft with rfl | hlater
        · left
          rw [State.current, State.slot_of_cons hrest]
          simp [Node.error, Span.contains]
        · right
          exact herrs.advances s.advances_advanced (State.rest_advanced hrest ▸ hlater)

theorem recovered (h : slot.Kept nodes s) (hadvances : s.Advances s') (d : Diagnostic) (inBlock : Bool) :
    slot.Kept (nodes ++ [Node.error (((s'.reported d).recovered s.mark inBlock).spanSince s.mark) []])
      ((s'.reported d).recovered s.mark inBlock) := by
  have hskips := hadvances.trans (s'.advances_reported_recovered d s.mark inBlock)
  refine h.append fun hleft => ?_
  rcases hleft with hnone | herrs
  · exact absurd hnone Node.shownIn_nil
  · exact (herrs.skipped hskips).imp_left fun hshows => Node.shownIn_cons.mpr (.inl hshows)

end Slot.Kept

variable {slot : Slot} {part : Part} {nodes : List Node} {s s' : State}

theorem FunctionWords.kept {isAsync : Bool} (h : FunctionWords s isAsync s') (hs : slot.Kept nodes s) :
    slot.Kept nodes s' := by
  cases h with
  | plain hfn => exact hs.past hfn nofun
  | asyncFirst hasync hfn => exact (hs.past hasync nofun).past hfn nofun
  | asyncLast hfn hasync => exact (hs.past hfn nofun).past hasync nofun

theorem TokenKind.ne_error_of_closer? {opener closer : TokenKind} (h : opener.closer? = some closer) :
    (∀ e, opener ≠ .error e) ∧ ∀ e, closer ≠ .error e := by
  unfold closer? at h
  split at h <;> cases h <;> exact ⟨nofun, nofun⟩

/-- A token that is a lexical error is left by every part of the grammar, or it is inside of an error node. -/
theorem Reads.kept (h : Reads false part nodes s s') (hpaired : part.Paired)
    (hs : slot.Kept part.left?.toList s) : slot.Kept nodes s' := by
  -- A rule that names the kind of the token that it takes does not take an error.  The others are `lexicalError`, which
  -- makes an error node of it, and the two recoveries, `joined` and `broken`, whose node spans all that they skip.
  induction h with
  | gap =>
      exact Slot.Kept.cons ((hs.entered.reported _).leaving _) _
  | expression _ _ _ _ ihleft ihclimb =>
      exact (ihclimb trivial (ihleft trivial hs.entered)).leaving _
  | climbStop => exact hs
  | climbFold _ _ _ _ ihfolded ihclimb =>
      exact ihclimb trivial (ihfolded trivial hs.entered)
  | literal hkind =>
      refine (hs.advanced fun e herror => ?_).cons _
      rw [herror] at hkind
      cases hkind
  | name hkind | identifier hkind | address hkind =>
      exact (hs.past hkind nofun).cons _
  | call hkind _ ih =>
      exact ((ih rfl (hs.past hkind nofun)).cons _).below
  | array _ ih | object _ ih | parameters _ ih =>
      exact (ih rfl hs).below
  | lambda hkind _ _ ihparameters ihbody =>
      exact ((ihparameters trivial (hs.past hkind nofun)).append (ihbody trivial)).below
  | macroCall hsigil hname _ ih =>
      refine ((ih rfl (Slot.Kept.past (hs.advanced fun e herror => ?_) hname nofun)).cons _).below
      rw [herror] at hsigil
      cases hsigil
  | awaitExpr hkind _ ih =>
      exact (ih trivial (hs.past hkind nofun)).below
  | bang hkind _ ih =>
      refine (ih trivial (hs.advanced fun e herror => ?_)).below
      rw [herror] at hkind
      cases hkind
  | lexicalError =>
      exact Slot.Kept.reported (Slot.Kept.lexicalError hs) _
  | operation hform hkind _ ih =>
      refine (hs.append fun hleft => ih trivial (Slot.Kept.pastNewlines ?_)).below
      refine hleft.advanced fun e herror => ?_
      rw [herror] at hkind
      cases hkind
  | subscript hkind _ hclosing ih =>
      have hindex := hs.append fun hleft =>
        ih trivial ((hleft.past hkind nofun).opened .rightBracket true).pastNewlines
      exact (hindex.pastNewlines.past hclosing nofun).closed.below
  | entry hkind hcolon _ ih =>
      exact ((ih trivial ((hs.past hkind nofun).past hcolon nofun).pastNewlines).cons _).below
  | emptyList hopener hcloser =>
      obtain ⟨hopens, hcloses⟩ := TokenKind.ne_error_of_closer? hpaired
      exact (((hs.past hopener hopens).opened _ _).pastNewlines.past hcloser hcloses).closed
  | @items _ closer expressionList item first rest _ _ _ hopener _ _ hcloser ihfirst ihrest =>
      obtain ⟨hopens, hcloses⟩ := TokenKind.ne_error_of_closer? hpaired
      have hinside := ((hs.past hopener hopens).opened closer expressionList).pastNewlines
      rw [item.left?_part] at ihfirst
      have hfirst := (ihfirst item.paired_part hinside).pastNewlines
      exact ((hfirst.append (ihrest trivial)).past hcloser hcloses).closed
  | noMore | noMoreSegments | noClauses => exact hs
  | @more item _ _ _ _ _ hkind _ _ ihnext ihrest =>
      rw [item.left?_part] at ihnext
      have hnext := ihnext item.paired_part (hs.past hkind nofun).pastNewlines
      exact hnext.pastNewlines.append (ihrest trivial)
  | block _ hopener _ hclosing ih =>
      have hinside := (hs.entered.past hopener nofun).opened .rightBrace false
      exact (((ih trivial hinside).closed.past hclosing nofun).leaving _).below
  | openBlock _ hopener _ _ _ ih =>
      have hinside := (hs.entered.past hopener nofun).opened .rightBrace false
      exact (((ih trivial hinside).closed.reported _).leaving _).below
  | noStatements | noMembers => exact hs.pastSeparators
  | whole _ _ _ _ ihstatement ihrest =>
      exact (ihstatement trivial hs.pastSeparators).append (ihrest trivial)
  | joined _ _ _ hrecovered _ _ ihstatement ihrest =>
      subst hrecovered
      exact ((ihstatement trivial hs.pastSeparators).recovered (.refl _) _ _).append (ihrest trivial)
  | broken _ hstatement hrecovered _ _ ih =>
      subst hrecovered
      have hfailed := Parser.Forward.advances_of_error _ hstatement
      exact (hs.pastSeparators.recovered hfailed _ _).append (ih trivial)
  | @statement _ s _ _ ih =>
      rw [s.left?_statementPart] at ih
      exact ih s.paired_statementPart hs.begun
  | bare _ _ ih =>
      exact (ih trivial hs).below
  | assign _ hkind _ _ ihtarget ihvalue =>
      refine (((ihtarget trivial hs).advanced fun e herror => ?_).append (ihvalue trivial)).below
      rw [herror] at hkind
      cases hkind
  | misassign _ hkind _ _ _ ihtarget ihvalue =>
      refine (((ihtarget trivial hs).below.advanced fun e herror => ?_).append (ihvalue trivial)).below.reported _
      rw [herror] at hkind
      cases hkind
  | functionDecl hwords hname _ _ ihparameters ihbody =>
      have hparameters := ihparameters trivial ((hwords.kept hs).past hname nofun)
      exact ((hparameters.append (ihbody trivial)).cons _).below
  | macroDecl hkind hname _ _ ihparameters ihbody =>
      have hparameters := ihparameters trivial ((hs.past hkind nofun).past hname nofun)
      exact ((hparameters.append (ihbody trivial)).cons _).below
  | structDecl hkind hname hopener _ hclosing ih =>
      have hinside := ((hs.past hkind nofun).past hname nofun).past hopener nofun
      have hmembers := ih trivial (hinside.opened .rightBrace false)
      exact ((hmembers.closed.past hclosing nofun).cons _).below
  | members _ _ _ ihmember ihrest =>
      exact (ihmember trivial hs.pastSeparators).append (ihrest trivial)
  | method _ _ ih | earlyField _ ih => exact ih trivial hs
  | lateField _ _ ih =>
      exact (ih trivial hs).below.reported _
  | field hkind hassign _ ih =>
      exact ((ih trivial ((hs.past hkind nofun).past hassign nofun)).cons _).below
  | importPath hkind _ _ ih =>
      exact (ih trivial (hs.past hkind nofun)).below
  | importAs hkind _ has hname ih =>
      have hpath := ih trivial (hs.past hkind nofun)
      exact (((hpath.past has nofun).past hname nofun).append fun hleft => hleft.cons _).below
  | importNames hkind _ _ hfrom _ ihnames ihpath =>
      have hnames := ihnames rfl (hs.past hkind nofun)
      exact ((hnames.past hfrom nofun).append (ihpath trivial)).below
  | knownPath hkind hcolon _ _ ih =>
      exact (ih trivial ((hs.past hkind nofun).past hcolon nofun)).below
  | unknownPath hkind hcolon _ _ _ ih =>
      exact (ih trivial ((hs.past hkind nofun).past hcolon nofun)).below.below.reported _
  | segments hkind _ ih =>
      exact (ih trivial (hs.past hkind nofun)).cons _
  | moreSegments hkind hname _ ih =>
      exact (ih trivial ((hs.past hkind nofun).past hname nofun)).cons _
  | forStmt hkind _ _ ihcondition ihbody | elifClause hkind _ _ ihcondition ihbody =>
      exact ((ihcondition trivial (hs.past hkind nofun)).append (ihbody trivial)).below
  | ifStmt hkind _ _ _ ihcondition ihbody ihclauses =>
      have hbody := (ihcondition trivial (hs.past hkind nofun)).append (ihbody trivial)
      exact (hbody.append (ihclauses trivial)).below
  | clauses _ _ _ ihnode ihrest =>
      exact (ihnode trivial hs.pastNewlines).append (ihrest trivial)
  | lateClause _ _ _ _ ihnode ihrest =>
      exact (ihnode trivial hs.pastNewlines).below.append fun hleft => ihrest trivial (hleft.reported _)
  | elseClause hkind _ ih | returnStmt hkind _ _ ih =>
      exact (ih trivial (hs.past hkind nofun)).below
  | bareReturn hkind =>
      exact (hs.past hkind nofun).below

/-! ### The lexical errors of a source -/

theorem isContent_of_error {kind : TokenKind} {e : LexicalError} (h : kind = .error e) : kind.isContent := by
  rw [h]
  rfl

theorem isComplaint_of_category {d : Diagnostic} (hlexical : d.category = .lexical) : d.isComplaint := by
  simp [Diagnostic.isComplaint, hlexical]

theorem Token.error_of_complaint? {t : Token} {d : Diagnostic} (h : t.complaint? = some d)
    (hlexical : d.category = .lexical) : ∃ e, t.kind = .error e ∧ d.name = e.name := by
  unfold complaint? at h
  split at h
  · rename_i e hkind
    cases h
    refine ⟨e, hkind, ?_⟩
    cases e <;> rfl
  · cases h
    cases hlexical
  · cases h

/-- Every lexical error of a source is inside of an error node of its tree.  A lexical diagnostic has the span of a
token that is a lexical error and the name of the error, and no two of them have the same span. -/
theorem lexical_errors (source : String) (options : Options) :
    (∀ t ∈ tokenize source, ∀ e, t.kind = .error e →
      ∃ n ∈ (parse source options).root.preorder, n.kind = .errorNode ∧ n.span.contains t.span) ∧
    (∀ d ∈ (parse source options).diagnostics, d.category = .lexical →
      ∃ t ∈ tokenize source, ∃ e, t.kind = .error e ∧ d.span = t.span ∧ d.name = e.name) ∧
    ((parse source options).diagnostics.filter (·.category = .lexical)).Pairwise fun d d' => d.span ≠ d'.span := by
  refine ⟨?_, ?_, ?_⟩
  · intro t ht e herror
    obtain ⟨body, s', hroot, -, hreads, hrest⟩ := parse_reads source options
    obtain ⟨slot, hslot, rfl, -⟩ := exists_slot_of_mem_tokenize options ht (isContent_of_error herror)
    have hleft : slot.ErrsIn (State.ofSource source options) :=
      ⟨⟨e, herror⟩, hslot, _, _, bounded_ofSource source options⟩
    rcases hreads.kept trivial (.inr hleft) with hshown | herrs
    · rw [hroot]
      exact Node.shows_mk.mpr (.inr hshown)
    · -- no token is left at the end of the file
      have hnone := herrs.left
      rw [hrest] at hnone
      cases hnone
  · intro d hd hlexical
    obtain ⟨t, ht, hcauses⟩ := exists_token_of_isComplaint hd (isComplaint_of_category hlexical)
    obtain ⟨e, herror, hname⟩ := Token.error_of_complaint? hcauses hlexical
    exact ⟨t, ht, e, herror, Token.span_of_complaint? hcauses, hname⟩
  · have hapart := apart_complaints source options (p := (·.category = .lexical)) fun d hd =>
      isComplaint_of_category (of_decide_eq_true hd)
    refine hapart.imp ?_
    intro d d' hd hsame
    exact hd (by rw [hsame])

/-- The structure is given up behind its field, so the second error is skipped: both are inside of an error node, and
the first is reported. -/
theorem lexical_errors_in_struct :
    ((tokenize "struct S \x7b a = # 1 # \x7d").filter (·.text = "#")).length = 2 ∧
      (∀ t ∈ tokenize "struct S \x7b a = # 1 # \x7d", t.text = "#" →
        ∃ n ∈ (parse "struct S \x7b a = # 1 # \x7d" {}).root.preorder,
          n.kind = .errorNode ∧ n.span.contains t.span) ∧
      ∃ d ∈ (parse "struct S \x7b a = # 1 # \x7d" {}).diagnostics, d.category = .lexical ∧
        ∃ t ∈ tokenize "struct S \x7b a = # 1 # \x7d", ∃ e, t.kind = .error e ∧ d.span = t.span ∧ d.name = e.name := by
  have herrors : ∀ t ∈ tokenize "struct S \x7b a = # 1 # \x7d", t.text = "#" →
      t.kind = .error .illegalCharacter := by
    decide +kernel
  have hreported : ∃ d ∈ (parse "struct S \x7b a = # 1 # \x7d" {}).diagnostics, d.category = .lexical := by
    decide +kernel
  obtain ⟨hshown, hcaused, -⟩ := lexical_errors "struct S \x7b a = # 1 # \x7d" {}
  obtain ⟨d, hd, hlexical⟩ := hreported
  exact ⟨by decide +kernel, fun t ht htext => hshown t ht _ (herrors t ht htext),
    d, hd, hlexical, hcaused d hd hlexical⟩

end ScriptSyntax
