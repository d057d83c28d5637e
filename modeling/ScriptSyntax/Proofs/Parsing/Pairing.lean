import Mathlib.Data.List.Forall2
import ScriptSyntax.Proofs.Parsing.Grammar

/-!
Two runs over tokens that correspond.  The tokens of the one run have the kinds and the texts of those of the
other, and stand at corresponding places; what places correspond, and whether the comments do, is left to a
`Pairing`.  A state shows nothing of a place but where the next token begins and where the last one ended, so
two states that are alike, `Pairing.Alike`, stay alike.
-/

namespace ScriptSyntax

/-- How the places of two runs correspond. -/
structure Pairing where
  /-- Where something begins in the one run and in the other. -/
  start : Position → Position → Prop
  /-- Where something ends in the one run and in the other. -/
  stop : Position → Position → Prop
  stop_of_start {p q : Position} : start p q → stop p q
  /-- The comments of the two runs correspond too. -/
  comments : Bool
  /-- The two runs warn about the same comments. -/
  warnings : Bool
  comments_of_warnings : warnings = true → comments = true
  /-- The number of tokens that the one run consumed before the other one began. -/
  skipped : Nat
  /-- The diagnostics of the one run before the other one began. -/
  earlier : List Diagnostic

/-- The diagnostic for a missing expression, which a comment may stand in the place of. -/
def Diagnostic.ofGap (e : SyntaxError) (comment : Bool) : Diagnostic :=
  if comment then (Diagnostic.ofError e).withNote "comments are not expressions"
  else Diagnostic.ofError e

namespace Pairing

variable (pairing : Pairing)

/-! ### Values -/

structure Spans (span span' : Span) : Prop where
  start : pairing.start span.start span'.start
  stop : pairing.stop span.stop span'.stop

structure Tokens (token token' : Token) : Prop where
  kind : token.kind = token'.kind
  text : token.text = token'.text
  span : pairing.Spans token.span token'.span

structure Slots (slot slot' : Slot) : Prop where
  token : pairing.Tokens slot.token slot'.token
  comment : pairing.comments = true →
    Option.Rel pairing.Spans slot.commentBefore slot'.commentBefore

inductive Nodes : Node → Node → Prop where
  | node {kind : NodeKind} {children children' : List Node} {span span' : Span}
      {literal : Option String} (hspan : pairing.Spans span span')
      (hchildren : List.Forall₂ Nodes children children') :
      Nodes ⟨kind, children, span, literal⟩ ⟨kind, children', span', literal⟩

/-- A block that is not closed is reported with the line where it begins; no other cause depends on a
place. -/
inductive Errors : SyntaxError → SyntaxError → Prop where
  | same {cause : Cause} {span span' : Span} (hcause : ∀ line, cause ≠ .unterminatedBlock line)
      (hspan : pairing.Spans span span') : Errors ⟨cause, span⟩ ⟨cause, span'⟩
  | block {span span' : Span} (hspan : pairing.Spans span span') :
      Errors ⟨.unterminatedBlock span.start.line, span⟩ ⟨.unterminatedBlock span'.start.line, span'⟩

inductive Diagnostics : Diagnostic → Diagnostic → Prop where
  | error {e e' : SyntaxError} (herror : pairing.Errors e e') : Diagnostics (.ofError e) (.ofError e')
  | gap {found : String} {span span' : Span} (comment comment' : Bool) (hspan : pairing.Spans span span')
      (hcomment : pairing.comments = true → comment = comment') :
      Diagnostics (.ofGap ⟨.expectedExpression found, span⟩ comment)
        (.ofGap ⟨.expectedExpression found, span'⟩ comment')
  | warning {span span' : Span} (hspan : pairing.Spans span span') :
      Diagnostics (State.commentWarning span) (State.commentWarning span')

/-- A diagnostic that both runs give. -/
def keeps (d : Diagnostic) : Bool := d.isError || pairing.warnings

structure Marks (mark mark' : Mark) : Prop where
  slots : List.Forall₂ pairing.Slots mark.slots mark'.slots
  index : mark.index = mark'.index + pairing.skipped

/-- The states are at corresponding tokens, and what was read before corresponds. -/
structure Alike (s t : State) : Prop where
  rest : List.Forall₂ pairing.Slots s.rest t.rest
  endOfFile : pairing.start s.endOfFile t.endOfFile
  commentAtEnd : pairing.comments = true → Option.Rel pairing.Spans s.commentAtEnd t.commentAtEnd
  consumed : s.consumed = t.consumed + pairing.skipped
  previousEnd : pairing.stop s.previousEnd t.previousEnd
  delimiters : s.delimiters = t.delimiters
  depth : s.depth = t.depth
  options : pairing.warnings = true → s.options = t.options
  reports : ∃ later, s.reports = later ++ pairing.earlier ∧
    List.Forall₂ pairing.Diagnostics (later.filter pairing.keeps) (t.reports.filter pairing.keeps)

variable {pairing}

theorem Spans.through {a a' b b' : Span} (ha : pairing.Spans a a') (hb : pairing.Spans b b') :
    pairing.Spans (a.through b) (a'.through b') :=
  ⟨ha.start, hb.stop⟩

theorem Spans.empty {p q : Position} (h : pairing.start p q) :
    pairing.Spans (Span.empty p) (Span.empty q) :=
  ⟨h, pairing.stop_of_start h⟩

namespace Nodes

variable {n n' : Node}

theorem kind (h : pairing.Nodes n n') : n.kind = n'.kind := by
  cases h
  rfl

theorem literal (h : pairing.Nodes n n') : n.literal = n'.literal := by
  cases h
  rfl

theorem children (h : pairing.Nodes n n') : List.Forall₂ pairing.Nodes n.children n'.children := by
  cases h
  assumption

theorem span (h : pairing.Nodes n n') : pairing.Spans n.span n'.span := by
  cases h
  assumption

theorem isError (h : pairing.Nodes n n') : n.isError = n'.isError := by
  unfold Node.isError
  rw [h.kind]

theorem errorWrapping (h : pairing.Nodes n n') : pairing.Nodes n.errorWrapping n'.errorWrapping :=
  .node h.span (.cons h .nil)

theorem name? (h : pairing.Nodes n n') : n.name? = n'.name? := by
  have hchildren := h.children
  unfold Node.name?
  rw [h.kind]
  generalize n.children = children at hchildren
  generalize n'.children = children' at hchildren
  cases hchildren with
  | nil => rfl
  | cons hchild _ => simp only [List.head?_cons, Option.bind_some, hchild.kind, hchild.literal]

theorem isMemberPath (h : pairing.Nodes n n') :
    Parser.isMemberPath n = Parser.isMemberPath n' := by
  induction n generalizing n' with
  | node kind children span literal ih =>
      cases h with
      | node _ hchildren =>
          cases hchildren with
          | nil => cases kind <;> rfl
          | cons hobject hrest =>
              cases hrest with
              | nil => cases kind <;> rfl
              | cons hmember hmore =>
                  cases hmore with
                  | cons => cases kind <;> rfl
                  | nil =>
                      have hpath := ih _ List.mem_cons_self hobject
                      cases kind with
                      | memberAccess => simp only [Parser.isMemberPath, hmember.kind, hpath]
                      | _ => rfl

theorem isValidTarget (h : pairing.Nodes n n') (kind : NodeKind) :
    Parser.isValidTarget kind n = Parser.isValidTarget kind n' := by
  unfold Parser.isValidTarget
  rw [h.kind, h.isMemberPath]

end Nodes

theorem Errors.span {e e' : SyntaxError} (h : pairing.Errors e e') : pairing.Spans e.span e'.span := by
  cases h with
  | same _ hspan => exact hspan
  | block hspan => exact hspan

theorem Diagnostics.span {d d' : Diagnostic} (h : pairing.Diagnostics d d') :
    pairing.Spans d.span d'.span := by
  cases h with
  | error herror => exact herror.span
  | gap comment comment' hspan => cases comment <;> cases comment' <;> exact hspan
  | warning hspan => exact hspan

theorem kinds_eq {slots slots' : List Slot} (h : List.Forall₂ pairing.Slots slots slots') :
    slots.map (·.kind) = slots'.map (·.kind) := by
  induction h with
  | nil => rfl
  | cons hslot _ ih => rw [List.map_cons, List.map_cons, ih, Slot.kind, hslot.token.kind, Slot.kind]

/-! ### What a state shows -/

namespace Alike

variable {s t : State}

theorem endSlot (h : pairing.Alike s t) :
    pairing.Slots ⟨Token.endOfFile s.endOfFile, s.commentAtEnd⟩
      ⟨Token.endOfFile t.endOfFile, t.commentAtEnd⟩ :=
  ⟨⟨rfl, rfl, .empty h.endOfFile⟩, h.commentAtEnd⟩

theorem headD {slots slots' : List Slot} {last last' : Slot}
    (h : List.Forall₂ pairing.Slots slots slots') (hlast : pairing.Slots last last') :
    pairing.Slots (slots.headD last) (slots'.headD last') := by
  cases h with
  | nil => exact hlast
  | cons hslot _ => exact hslot

theorem slot (h : pairing.Alike s t) : pairing.Slots s.slot t.slot :=
  headD h.rest h.endSlot

theorem current (h : pairing.Alike s t) : pairing.Tokens s.current t.current := h.slot.token

theorem kind (h : pairing.Alike s t) : s.kind = t.kind := h.current.kind

theorem place (h : pairing.Alike s t) : pairing.start s.current.span.start t.current.span.start :=
  h.current.span.start

theorem kind_peek (h : pairing.Alike s t) (n : Nat) : (s.peek n).kind = (t.peek n).kind :=
  (headD (List.forall₂_drop n h.rest) h.endSlot).token.kind

theorem kindPastNewlines (h : pairing.Alike s t) : s.kindPastNewlines = t.kindPastNewlines := by
  have hfind : ∀ {slots slots' : List Slot}, List.Forall₂ pairing.Slots slots slots' →
      Option.Rel pairing.Slots (slots.find? (·.kind ≠ .newline)) (slots'.find? (·.kind ≠ .newline)) := by
    intro slots slots' hslots
    induction hslots with
    | nil => exact .none
    | @cons slot slot' _ _ hslot _ ih =>
        have hkind : slot.kind = slot'.kind := hslot.token.kind
        simp only [List.find?_cons, hkind]
        split
        · exact .some hslot
        · exact ih
  have hnext := hfind h.rest
  unfold State.kindPastNewlines
  generalize s.rest.find? _ = first at hnext
  generalize t.rest.find? _ = second at hnext
  cases hnext with
  | none => rfl
  | some hslot => exact hslot.token.kind

theorem atStatementEnd (h : pairing.Alike s t) : s.atStatementEnd = t.atStatementEnd := by
  unfold State.atStatementEnd
  rw [h.kind]

theorem atBoundary (h : pairing.Alike s t) : s.atBoundary = t.atBoundary := by
  unfold State.atBoundary
  rw [h.kind, h.delimiters]

theorem atListEnd (h : pairing.Alike s t) (inBlock : Bool) :
    Parser.atListEnd inBlock s = Parser.atListEnd inBlock t := by
  unfold Parser.atListEnd
  rw [h.kind]

theorem display (h : pairing.Alike s t) : s.current.display = t.current.display := by
  unfold Token.display
  rw [h.current.kind, h.current.text]

theorem lexical {e : LexicalError} {text : String} {span span' : Span} (h : pairing.Spans span span') :
    pairing.Errors ⟨Cause.ofLexical e text, span⟩ ⟨Cause.ofLexical e text, span'⟩ := by
  cases e with
  | unterminatedString => exact .same nofun h
  | illegalCharacter => exact .same nofun h

theorem unexpected (h : pairing.Alike s t) (expected : String) :
    pairing.Errors (s.unexpected expected) (t.unexpected expected) := by
  unfold State.unexpected
  rw [h.kind, h.display, h.current.text]
  split
  · exact lexical h.current.span
  · exact .same nofun h.current.span

theorem missingSeparator (h : pairing.Alike s t) :
    pairing.Errors s.missingSeparator t.missingSeparator := by
  unfold State.missingSeparator
  rw [h.kind, h.display, h.current.text]
  split
  · exact lexical h.current.span
  · exact .same nofun h.current.span

theorem nestingTooDeep (h : pairing.Alike s t) : pairing.Errors s.nestingTooDeep t.nestingTooDeep :=
  .same nofun h.current.span

theorem missingExpression (h : pairing.Alike s t) :
    pairing.Errors s.missingExpression t.missingExpression := by
  unfold State.missingExpression
  rw [h.display]
  exact .same nofun h.current.span

theorem gapDiagnostic (h : pairing.Alike s t) :
    pairing.Diagnostics s.gapDiagnostic t.gapDiagnostic := by
  have hcomment : pairing.comments = true →
      s.slot.commentBefore.isSome = t.slot.commentBefore.isSome := by
    intro hcomments
    have hcomment := h.slot.comment hcomments
    generalize s.slot.commentBefore = comment at hcomment
    generalize t.slot.commentBefore = comment' at hcomment
    cases hcomment <;> rfl
  show pairing.Diagnostics (.ofGap s.missingExpression _) (.ofGap t.missingExpression _)
  unfold State.missingExpression
  rw [h.display]
  exact .gap _ _ h.current.span hcomment

theorem spanFrom (h : pairing.Alike s t) {p q : Position} (hstart : pairing.start p q) :
    pairing.Spans (s.spanFrom p) (t.spanFrom q) :=
  ⟨hstart, h.previousEnd⟩

/-! ### Steps -/

theorem entered (h : pairing.Alike s t) : pairing.Alike s.entered t.entered :=
  { h with depth := congrArg (· + 1) h.depth }

theorem leaving (h : pairing.Alike s t) (depth : Nat) :
    pairing.Alike (s.leaving depth) (t.leaving depth) :=
  { h with depth := rfl }

theorem opened (h : pairing.Alike s t) (closer : TokenKind) (expressionList : Bool) :
    pairing.Alike (s.opened closer expressionList) (t.opened closer expressionList) :=
  { h with delimiters := congrArg (Delimiter.mk closer expressionList :: ·) h.delimiters }

theorem closed (h : pairing.Alike s t) : pairing.Alike s.closed t.closed :=
  { h with delimiters := congrArg List.tail h.delimiters }

theorem logged (h : pairing.Alike s t) (event event' : Event) :
    pairing.Alike (s.logged event) (t.logged event') :=
  { h with }

theorem reported (h : pairing.Alike s t) {d d' : Diagnostic} (hd : pairing.Diagnostics d d')
    (hkeeps : pairing.keeps d = pairing.keeps d') :
    pairing.Alike (s.reported d) (t.reported d') := by
  obtain ⟨later, hlater, hreports⟩ := h.reports
  refine { h with reports := ⟨d :: later, congrArg (d :: ·) hlater, ?_⟩ }
  show List.Forall₂ _ ((d :: later).filter _) ((d' :: t.reports).filter _)
  rw [List.filter_cons, List.filter_cons, hkeeps]
  split
  · exact .cons hd hreports
  · exact hreports

theorem reported_left (h : pairing.Alike s t) {d : Diagnostic} (hd : pairing.keeps d = false) :
    pairing.Alike (s.reported d) t := by
  obtain ⟨later, hlater, hreports⟩ := h.reports
  refine { h with reports := ⟨d :: later, congrArg (d :: ·) hlater, ?_⟩ }
  rw [List.filter_cons, hd]
  exact hreports

theorem reported_right (h : pairing.Alike s t) {d : Diagnostic} (hd : pairing.keeps d = false) :
    pairing.Alike s (t.reported d) := by
  obtain ⟨later, hlater, hreports⟩ := h.reports
  refine { h with reports := ⟨later, hlater, ?_⟩ }
  show List.Forall₂ _ _ ((d :: t.reports).filter _)
  rw [List.filter_cons, hd]
  exact hreports

theorem reported_error (h : pairing.Alike s t) {e e' : SyntaxError} (he : pairing.Errors e e') :
    pairing.Alike (s.reported (.ofError e)) (t.reported (.ofError e')) :=
  h.reported (.error he) rfl

theorem reported_gap (h : pairing.Alike s t) :
    pairing.Alike (s.reported s.gapDiagnostic) (t.reported t.gapDiagnostic) := by
  have hkeeps : ∀ s : State, pairing.keeps s.gapDiagnostic = true := by
    intro s
    unfold State.gapDiagnostic
    split <;> rfl
  exact h.reported h.gapDiagnostic ((hkeeps s).trans (hkeeps t).symm)

theorem noted_cases (s : State) (slot : Slot) :
    s.noted slot = s ∨ ∃ span, s.noted slot = s.reported (State.commentWarning span) := by
  unfold State.noted
  split
  · split
    · exact .inr ⟨_, rfl⟩
    · exact .inl rfl
  · exact .inl rfl

theorem noted (h : pairing.Alike s t) {slot slot' : Slot} (hslot : pairing.Slots slot slot') :
    pairing.Alike (s.noted slot) (t.noted slot') := by
  cases hwarnings : pairing.warnings with
  | true =>
      have hcomment := hslot.comment (pairing.comments_of_warnings hwarnings)
      unfold State.noted
      rw [h.options hwarnings, h.delimiters]
      generalize slot.commentBefore = comment at hcomment
      generalize slot'.commentBefore = comment' at hcomment
      cases hcomment with
      | none => exact h
      | some hspan =>
          simp only
          split
          · exact h.reported (.warning hspan) rfl
          · exact h
  | false =>
      -- the warnings are not compared, so it does not matter which of the runs gives one
      have hwarning : ∀ span, pairing.keeps (State.commentWarning span) = false := fun _ => hwarnings
      have hleft : pairing.Alike (s.noted slot) t := by
        rcases noted_cases s slot with hsame | ⟨span, hreported⟩
        · rw [hsame]
          exact h
        · rw [hreported]
          exact h.reported_left (hwarning span)
      rcases noted_cases t slot' with hsame | ⟨span, hreported⟩
      · rw [hsame]
        exact hleft
      · rw [hreported]
        exact hleft.reported_right (hwarning span)

theorem advanced (h : pairing.Alike s t) : pairing.Alike s.advanced t.advanced := by
  have hslots := h.rest
  unfold State.advanced
  generalize hs : s.rest = slots at hslots
  generalize ht : t.rest = slots' at hslots
  cases hslots with
  | nil => exact h
  | cons hslot hrest =>
      have hnoted := h.noted hslot
      exact
        { hnoted with
          rest := hrest
          consumed := by
            show s.consumed + 1 = t.consumed + 1 + pairing.skipped
            rw [h.consumed]
            omega
          previousEnd := hslot.token.span.stop }

theorem pastWhile (h : pairing.Alike s t) (p : TokenKind → Bool) {slots slots' : List Slot}
    (hslots : List.Forall₂ pairing.Slots slots slots') :
    pairing.Alike (State.pastWhile p slots s) (State.pastWhile p slots' t) := by
  induction hslots generalizing s t with
  | nil => exact h
  | cons hslot _ ih =>
      unfold State.pastWhile
      rw [Slot.kind, hslot.token.kind, ← Slot.kind]
      split
      · exact ih h.advanced
      · exact h

theorem pastNewlines (h : pairing.Alike s t) : pairing.Alike s.pastNewlines t.pastNewlines :=
  h.pastWhile _ h.rest

theorem pastSeparators (h : pairing.Alike s t) : pairing.Alike s.pastSeparators t.pastSeparators :=
  h.pastWhile _ h.rest

theorem pastBroken (h : pairing.Alike s t) (inBlock : Bool) (owed : List TokenKind)
    {slots slots' : List Slot} (hslots : List.Forall₂ pairing.Slots slots slots') :
    pairing.Alike (State.pastBroken inBlock owed slots s) (State.pastBroken inBlock owed slots' t) := by
  induction hslots generalizing s t owed with
  | nil => exact h
  | cons hslot _ ih =>
      unfold State.pastBroken
      rw [Slot.kind, hslot.token.kind, ← Slot.kind]
      split
      · exact h
      · exact ih h.advanced _

theorem mark (h : pairing.Alike s t) : pairing.Marks s.mark t.mark :=
  ⟨h.rest, h.consumed⟩

theorem spanSince (h : pairing.Alike s t) {mark mark' : Mark} (hmark : pairing.Marks mark mark') :
    pairing.Spans (s.spanSince mark) (t.spanSince mark') := by
  have hslots := hmark.slots
  have hmore : mark.index < s.consumed ↔ mark'.index < t.consumed := by
    rw [hmark.index, h.consumed]
    omega
  unfold State.spanSince
  simp only [hmore]
  generalize mark.slots = slots at hslots ⊢
  generalize mark'.slots = slots' at hslots ⊢
  cases hslots with
  | nil =>
      split
      · exact h.spanFrom h.endOfFile
      · exact .empty h.endOfFile
  | cons hslot _ =>
      split
      · exact h.spanFrom hslot.token.span.start
      · exact .empty hslot.token.span.start

theorem recovered (h : pairing.Alike s t) {mark mark' : Mark} (hmark : pairing.Marks mark mark')
    (inBlock : Bool) : pairing.Alike (s.recovered mark inBlock) (t.recovered mark' inBlock) := by
  have hlength : s.consumed - mark.index = t.consumed - mark'.index := by
    rw [hmark.index, h.consumed]
    omega
  have hbehind := kinds_eq (List.forall₂_take (t.consumed - mark'.index) hmark.slots)
  unfold State.recovered
  simp only [hlength, hbehind]
  exact (h.pastBroken inBlock _ h.rest).logged _ _

end Alike

end Pairing

end ScriptSyntax
