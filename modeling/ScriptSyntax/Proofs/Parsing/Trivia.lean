import ScriptSyntax.Proofs.Diagnostic.Order
import ScriptSyntax.Proofs.Parsing.Parallel
import ScriptSyntax.Proofs.Parsing.Spans
import ScriptSyntax.Proofs.Token.Lines

/-!
Parsing does not look at trivia.  Sources with the same tokens but for blanks and comments have the same trees
and the same errors, up to where on its line something stands.
-/

namespace ScriptSyntax

def Position.lineOnly (p : Position) : Position := ⟨0, p.line, 0⟩

/-- The kinds and the texts of the tokens of a source that are no trivia. -/
def significantTokens (source : String) : List (TokenKind × String) :=
  ((tokenize source).filter (!·.kind.isTrivia)).map fun t => (t.kind, t.text)

/-- A diagnostic without what trivia may change: where on its line it stands, and the note on a comment that
stands in the place of an expression. -/
def Diagnostic.lineOnly (d : Diagnostic) : Diagnostic :=
  { d with
    span := d.span.mapPositions .lineOnly
    notes := d.notes.filter (· ≠ "comments are not expressions") }

/-! ### Sequences of tokens with the same texts -/

/-- The slots are the same up to where on their lines they stand. -/
structure Slot.SameLine (slot slot' : Slot) : Prop where
  kind : slot.token.kind = slot'.token.kind
  text : slot.token.text = slot'.token.text
  start : slot.token.span.start.line = slot'.token.span.start.line
  stop : slot.token.span.stop.line = slot'.token.span.stop.line

theorem Slot.OnLines.sameLine {slots slots' : List Slot} {line : Nat} (h : Slot.OnLines line slots)
    (h' : Slot.OnLines line slots')
    (htokens : slots.map (fun slot => (slot.token.kind, slot.token.text)) =
      slots'.map fun slot => (slot.token.kind, slot.token.text)) :
    List.Forall₂ Slot.SameLine slots slots' := by
  induction slots generalizing slots' line with
  | nil =>
      cases slots' with
      | nil => exact .nil
      | cons => cases htokens
  | cons slot slots ih =>
      cases slots' with
      | nil => cases htokens
      | cons slot' slots' =>
          obtain ⟨hstart, hstop, hrest⟩ := h
          obtain ⟨hstart', hstop', hrest'⟩ := h'
          rw [List.map_cons, List.map_cons, List.cons.injEq, Prod.mk.injEq] at htokens
          obtain ⟨⟨hkind, htext⟩, hlater⟩ := htokens
          have hline : slot.token.span.stop.line = slot'.token.span.stop.line := by
            rw [hstop, hstop', htext]
          refine .cons ⟨hkind, htext, hstart.trans hstart'.symm, hline⟩ ?_
          exact ih hrest (hline ▸ hrest') hlater

/-- The one slot begins before the other. -/
def Slot.Before (a b : Slot) : Prop :=
  a.token.span.start.offset < b.token.span.start.offset

theorem Slot.Ordered.pairwise {p stop : Position} {slots : List Slot} (h : Slot.Ordered p stop slots)
    (comment : Option Span) :
    List.Pairwise Slot.Before (slots ++ [⟨Token.endOfFile stop, comment⟩]) := by
  induction slots generalizing p with
  | nil => exact List.pairwise_singleton _ _
  | cons slot slots ih =>
      obtain ⟨-, hwidth, -, hlater⟩ := h
      refine List.pairwise_cons.mpr ⟨?_, ih hlater⟩
      intro later hmem
      rcases List.mem_append.mp hmem with hslot | hend
      · have hplace := hlater.of_mem hslot
        show slot.token.span.start.offset < later.token.span.start.offset
        omega
      · obtain rfl := List.mem_singleton.mp hend
        exact Nat.lt_of_lt_of_le hwidth hlater.le_stop

theorem Slot.before_iff_of_mem_zip {slots slots' : List Slot} (hlength : slots.length = slots'.length)
    (hslots : slots.Pairwise Slot.Before) (hslots' : slots'.Pairwise Slot.Before)
    {pair other : Slot × Slot} (hpair : pair ∈ slots.zip slots') (hother : other ∈ slots.zip slots') :
    pair.1.Before other.1 ↔ pair.2.Before other.2 := by
  have hfirst : (slots.zip slots').Pairwise fun a b => a.1.Before b.1 := by
    rwa [← List.map_fst_zip (Nat.le_of_eq hlength), List.pairwise_map] at hslots
  have hsecond : (slots.zip slots').Pairwise fun a b => a.2.Before b.2 := by
    rwa [← List.map_snd_zip (Nat.le_of_eq hlength.symm), List.pairwise_map] at hslots'
  refine List.Pairwise.forall_of_forall_of_flip (R := fun a b => a.1.Before b.1 ↔ a.2.Before b.2)
    ?_ ?_ ?_ hpair hother
  · intro a _
    exact iff_of_false (Nat.lt_irrefl _) (Nat.lt_irrefl _)
  · exact hfirst.imp₂ (fun _ _ => iff_of_true) hsecond
  · exact hfirst.imp₂ (fun _ _ hlt hlt' => iff_of_false (Nat.lt_asymm hlt) (Nat.lt_asymm hlt')) hsecond

/-! ### Two sources with the same tokens -/

/-- Places correspond where the same token begins; of where tokens end only the line matters. -/
def Pairing.alongside (slots slots' : List Slot) : Pairing where
  start p q := p.line = q.line ∧
    ∃ pair ∈ slots.zip slots', p = pair.1.token.span.start ∧ q = pair.2.token.span.start
  stop p q := p.line = q.line
  stop_of_start := And.left
  comments := false
  warnings := false
  comments_of_warnings := nofun
  skipped := 0
  earlier := []

theorem State.slots_ofSource (source : String) (options : Options) :
    (State.ofSource source options).slots = Slot.significant none (tokenize source) :=
  State.slots_ofTokens options Position.origin source.toList

theorem onLines_ofSource (source : String) (options : Options) :
    Slot.OnLines 1 (State.ofSource source options).slots := by
  rw [State.ofSource, tokenize, State.ofTokens_lexemes, State.slots]
  exact (Scan.run_lexemes Position.origin source.toList).onLines
    (Scan.newline_not_mem_trivia Position.origin source.toList) none _

theorem before_ofSource (source : String) (options : Options) :
    (State.ofSource source options).slots.Pairwise Slot.Before :=
  (bounded_ofSource source options).ordered.pairwise _

section
variable {source source' : String} (options : Options)
  (h : significantTokens source = significantTokens source')
include h

theorem sameLine_of_significantTokens :
    List.Forall₂ Slot.SameLine (State.ofSource source options).slots
      (State.ofSource source' options).slots := by
  refine (onLines_ofSource source options).sameLine (onLines_ofSource source' options) ?_
  have htokens : ∀ source, (State.ofSource source options).slots.map
      (fun slot => (slot.token.kind, slot.token.text)) = significantTokens source := by
    intro source
    rw [State.slots_ofSource, significantTokens, ← Slot.map_token_significant none, List.map_map]
    rfl
  rw [htokens, htokens, h]

theorem slots_of_significantTokens :
    List.Forall₂ (Pairing.alongside (State.ofSource source options).slots
      (State.ofSource source' options).slots).Slots (State.ofSource source options).slots
        (State.ofSource source' options).slots := by
  obtain ⟨hlength, hsame⟩ := List.forall₂_iff_zip.mp (sameLine_of_significantTokens options h)
  refine List.forall₂_iff_zip.mpr ⟨hlength, ?_⟩
  intro slot slot' hpair
  obtain ⟨hkind, htext, hstart, hstop⟩ := hsame hpair
  exact ⟨⟨hkind, htext, ⟨hstart, _, hpair, rfl, rfl⟩, hstop⟩, nofun⟩

theorem alike_of_significantTokens :
    (Pairing.alongside (State.ofSource source options).slots
      (State.ofSource source' options).slots).Alike (State.ofSource source options)
        (State.ofSource source' options) := by
  have hslots := List.rel_reverse (slots_of_significantTokens options h)
  have hinitial : ∀ source, State.ofSource source options =
      { State.ofSource source options with
        consumed := 0, previousEnd := Position.origin, delimiters := [], depth := 0, reports := [] } := by
    intro source
    rw [State.ofSource, tokenize, State.ofTokens_lexemes]
  simp only [State.slots, List.reverse_append, List.reverse_singleton, List.singleton_append] at hslots
  cases hslots with
  | cons hend hrest =>
      rw [hinitial source, hinitial source']
      exact
        { rest := List.forall₂_reverse_iff.mp hrest
          endOfFile := hend.token.span.start
          commentAtEnd := fun hcomments => absurd hcomments Bool.false_ne_true
          consumed := rfl
          previousEnd := rfl
          delimiters := rfl
          depth := rfl
          options := fun hwarnings => absurd hwarnings Bool.false_ne_true
          reports := ⟨[], rfl, .nil⟩ }

end

/-! ### The results -/

theorem lineOnly_ofGap (e : SyntaxError) (comment : Bool) :
    (Diagnostic.ofGap e comment).lineOnly = (Diagnostic.ofError e).lineOnly := by
  cases comment with
  | false => rfl
  | true => simp [Diagnostic.ofGap, Diagnostic.withNote, Diagnostic.lineOnly]

section
variable {pairing : Pairing} (hstart : ∀ p q, pairing.start p q → p.lineOnly = q.lineOnly)
  (hstop : ∀ p q, pairing.stop p q → p.lineOnly = q.lineOnly)
include hstart hstop

theorem Pairing.Errors.lineOnly {e e' : SyntaxError} (h : pairing.Errors e e') :
    (Diagnostic.ofError e).lineOnly = (Diagnostic.ofError e').lineOnly := by
  have hspan := h.span.mapPositions hstart hstop
  cases h with
  | same => simp only [Diagnostic.ofError, Diagnostic.lineOnly, hspan]
  | @block span span' hplace =>
      have hline : span.start.line = span'.start.line :=
        (Position.mk.inj (hstart _ _ hplace.start)).2.1
      simp only [Diagnostic.ofError, Diagnostic.lineOnly, hspan, hline]

theorem Pairing.Diagnostics.lineOnly {d d' : Diagnostic} (h : pairing.Diagnostics d d') :
    d.lineOnly = d'.lineOnly := by
  cases h with
  | error herror => exact herror.lineOnly hstart hstop
  | gap comment comment' hspan =>
      rw [lineOnly_ofGap, lineOnly_ofGap]
      exact Pairing.Errors.lineOnly hstart hstop (.same nofun hspan)
  | warning hspan =>
      simp only [State.commentWarning, Diagnostic.withNote, Diagnostic.warning, Diagnostic.lineOnly,
        hspan.mapPositions hstart hstop]

end

theorem Pairing.lineOnly_of_start {slots slots' : List Slot} {p q : Position}
    (h : (Pairing.alongside slots slots').start p q) : p.lineOnly = q.lineOnly :=
  congrArg (Position.mk 0 · 0) h.1

theorem Pairing.lineOnly_of_stop {slots slots' : List Slot} {p q : Position}
    (h : (Pairing.alongside slots slots').stop p q) : p.lineOnly = q.lineOnly :=
  congrArg (Position.mk 0 · 0) h

theorem Pairing.Alike.errors {slots slots' : List Slot} {s t : State}
    (h : (Pairing.alongside slots slots').Alike s t) (hlength : slots.length = slots'.length)
    (hslots : slots.Pairwise Slot.Before) (hslots' : slots'.Pairwise Slot.Before) :
    (s.diagnostics.filter (·.isError)).map (·.lineOnly) =
      (t.diagnostics.filter (·.isError)).map (·.lineOnly) := by
  obtain ⟨later, hlater, hreports⟩ := h.reports
  have hkeeps : (Pairing.alongside slots slots').keeps = (·.isError) :=
    funext fun d => Bool.or_false d.isError
  have hall : s.reports = later := hlater.trans (List.append_nil later)
  rw [hkeeps, ← hall] at hreports
  have hsorted := Diagnostic.forall₂_inSourceOrder ?_ (List.rel_reverse hreports)
  · rw [← List.filter_reverse, ← List.filter_reverse, ← Diagnostic.filter_inSourceOrder,
      ← Diagnostic.filter_inSourceOrder] at hsorted
    have hsame := hsorted.imp fun d d' hd =>
      Pairing.Diagnostics.lineOnly (fun _ _ => lineOnly_of_start) (fun _ _ => lineOnly_of_stop) hd
    exact List.forall₂_eq_eq_eq ▸ List.forall₂_map_left_iff.mpr (List.forall₂_map_right_iff.mpr hsame)
  · -- the diagnostics start where tokens do, and the tokens are in the same order
    intro d d' e e' hd he
    obtain ⟨-, pair, hpair, hplace, hplace'⟩ := hd.span.start
    obtain ⟨-, other, hother, hbehind, hbehind'⟩ := he.span.start
    rw [hplace, hplace', hbehind, hbehind']
    exact Slot.before_iff_of_mem_zip hlength hslots hslots' hother hpair

/-- Sources whose tokens apart from trivia have the same kinds and texts have the same tree and the same errors,
but for offsets and columns. -/
theorem parse_ignores_trivia (source source' : String) (options : Options)
    (h : significantTokens source = significantTokens source') :
    (parse source options).root.mapPositions .lineOnly =
        (parse source' options).root.mapPositions .lineOnly ∧
      (parse source options).errors.map (·.lineOnly) =
        (parse source' options).errors.map (·.lineOnly) := by
  obtain ⟨body, s, hrun, hresult⟩ := parseTokens_eq options Position.origin source.toList
  obtain ⟨body', t, hrun', hresult'⟩ := parseTokens_eq options Position.origin source'.toList
  have halike := alike_of_significantTokens options h
  obtain ⟨hbody, hstates⟩ := halike.statements hrun hrun'
  have hlength := (sameLine_of_significantTokens options h).length_eq
  rw [parse_eq_parseTokens, parse_eq_parseTokens, hresult, hresult']
  constructor
  · have hend := Pairing.lineOnly_of_start halike.endOfFile
    simp only [State.ofSource, tokenize, State.ofTokens_lexemes] at hend
    have hchildren := Pairing.map_mapPositions (fun _ _ => Pairing.lineOnly_of_start)
      (fun _ _ => Pairing.lineOnly_of_stop) hbody
    simp only [Node.branch, Node.mapPositions_mk, Span.mapPositions, hend, hchildren]
  · exact hstates.errors hlength (before_ofSource source options) (before_ofSource source' options)

theorem ignores_comment_in_gap :
    significantTokens "x = // two\n" = significantTokens "x =\n" ∧
      (parse "x = // two\n" {}).root.mapPositions .lineOnly =
          (parse "x =\n" {}).root.mapPositions .lineOnly ∧
        (parse "x = // two\n" {}).errors.map (·.lineOnly) =
          (parse "x =\n" {}).errors.map (·.lineOnly) ∧
        (parse "x = // two\n" {}).errors.map (·.notes) ≠ (parse "x =\n" {}).errors.map (·.notes) := by
  have h : significantTokens "x = // two\n" = significantTokens "x =\n" := by decide +kernel
  obtain ⟨hroot, herrors⟩ := parse_ignores_trivia "x = // two\n" "x =\n" {} h
  exact ⟨h, hroot, herrors, by decide +kernel⟩

end ScriptSyntax
