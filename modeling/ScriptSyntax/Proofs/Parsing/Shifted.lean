import ScriptSyntax.Proofs.Diagnostic.Order
import ScriptSyntax.Proofs.Parsing.Parallel
import ScriptSyntax.Proofs.Parsing.Whole
import ScriptSyntax.Proofs.Token.Lines

/-!
A text behind other lines.  From the beginning of a line on, a parse that has nothing open reads what the text
from there on gives alone, with every place moved behind the lines before: `State.Resumes.statements`.
-/

namespace ScriptSyntax

open ScriptSyntax.Parser

/-! ### Places behind other lines -/

/-- The diagnostic with its places moved.  A block that is not closed is reported with the line where it
begins, so the line is moved in its message and its notes too. -/
def Diagnostic.mapPositions (f : Position → Position) (d : Diagnostic) : Diagnostic :=
  if d.name = "UnterminatedBlock" then
    .ofError ⟨.unterminatedBlock (f d.span.start).line, d.span.mapPositions f⟩
  else { d with span := d.span.mapPositions f }

theorem Diagnostic.span_mapPositions (f : Position → Position) (d : Diagnostic) :
    (d.mapPositions f).span = d.span.mapPositions f := by
  unfold mapPositions
  split <;> rfl

theorem Diagnostic.mapPositions_ofError {cause : Cause} (hcause : ∀ line, cause ≠ .unterminatedBlock line)
    (f : Position → Position) (span : Span) :
    (ofError ⟨cause, span⟩).mapPositions f = ofError ⟨cause, span.mapPositions f⟩ := by
  have hname : cause.name ≠ "UnterminatedBlock" := by
    cases cause with
    | unterminatedBlock line => exact absurd rfl (hcause line)
    | _ => simp [Cause.name]
  exact if_neg hname

/-! ### Tokens behind other lines -/

/-- Places correspond where the one lies where the other comes to lie behind the lines. -/
def Pairing.shifted (lines : String) (skipped : Nat) (earlier : List Diagnostic) : Pairing where
  start p q := p = q.shiftedBy lines
  stop p q := p = q.shiftedBy lines
  stop_of_start := id
  comments := true
  warnings := true
  comments_of_warnings := fun _ => rfl
  skipped
  earlier

namespace Pairing

theorem slots_significant {pairing : Pairing} {tokens tokens' : List Token} {pending pending' : Option Span}
    (htokens : List.Forall₂ pairing.Tokens tokens tokens')
    (hpending : Option.Rel pairing.Spans pending pending') :
    List.Forall₂ pairing.Slots (Slot.significant pending tokens) (Slot.significant pending' tokens') ∧
      Option.Rel pairing.Spans (Slot.pendingAfter pending tokens) (Slot.pendingAfter pending' tokens') := by
  induction htokens generalizing pending pending' with
  | nil => exact ⟨.nil, hpending⟩
  | @cons token token' _ _ htoken _ ih =>
      rcases Slot.trivia_cases token.kind with hkind | hkind | hkind
      · have hkind' := htoken.kind ▸ hkind
        rw [Slot.significant_whitespace hkind, Slot.significant_whitespace hkind',
          Slot.pendingAfter_whitespace hkind, Slot.pendingAfter_whitespace hkind']
        exact ih hpending
      · have hkind' := htoken.kind ▸ hkind
        rw [Slot.significant_comment hkind, Slot.significant_comment hkind',
          Slot.pendingAfter_comment hkind, Slot.pendingAfter_comment hkind']
        exact ih (.some htoken.span)
      · have hkind' := htoken.kind ▸ hkind
        rw [Slot.significant_token hkind, Slot.significant_token hkind', Slot.pendingAfter_token hkind,
          Slot.pendingAfter_token hkind']
        obtain ⟨hslots, hlast⟩ := ih .none
        exact ⟨.cons ⟨htoken, fun _ => hpending⟩ hslots, hlast⟩

section
variable {lines : String} {skipped : Nat} {earlier : List Diagnostic}

theorem tokens_shifted (p : Position) (text : List Char) :
    List.Forall₂ (Pairing.shifted lines skipped earlier).Tokens
      (Scan.lexemes (p.shiftedBy lines) text) (Scan.lexemes p text) := by
  rw [Scan.lexemes_shiftedBy, List.forall₂_map_left_iff]
  exact List.forall₂_same.mpr fun _ _ => ⟨rfl, rfl, rfl, rfl⟩

theorem kinds_shifted (p : Position) (text : List Char) :
    (Scan.lexemes (p.shiftedBy lines) text).map (·.kind) = (Scan.lexemes p text).map (·.kind) := by
  have hkinds := (@tokens_shifted lines 0 [] p text).imp fun _ _ htoken => htoken.kind
  exact List.forall₂_eq_eq_eq ▸ List.forall₂_map_left_iff.mpr (List.forall₂_map_right_iff.mpr hkinds)

theorem eq_map_of_shifted {nodes nodes' : List Node}
    (h : List.Forall₂ (Pairing.shifted lines skipped earlier).Nodes nodes nodes') :
    nodes = nodes'.map (·.mapPositions (·.shiftedBy lines)) := by
  have hsame := map_mapPositions (f := id) (g := (·.shiftedBy lines)) (fun _ _ hplace => hplace)
    (fun _ _ hplace => hplace) h
  have hkept : nodes.map (·.mapPositions id) = nodes.map id :=
    List.map_congr_left fun n _ => n.mapPositions_id
  rw [← hsame, hkept, List.map_id]

theorem Diagnostics.eq_mapPositions {d d' : Diagnostic}
    (h : (Pairing.shifted lines skipped earlier).Diagnostics d d') :
    d = d'.mapPositions (·.shiftedBy lines) := by
  have hmoved : ∀ {span span' : Span}, (Pairing.shifted lines skipped earlier).Spans span span' →
      span = span'.mapPositions (·.shiftedBy lines) := fun hspan => Span.ext hspan.start hspan.stop
  cases h with
  | error herror =>
      cases herror with
      | same hcause hspan => rw [Diagnostic.mapPositions_ofError hcause, hmoved hspan]
      | block hspan =>
          rw [hmoved hspan]
          exact (if_pos rfl).symm
  | gap comment comment' hspan hcomment =>
      obtain rfl := hcomment rfl
      rw [hmoved hspan]
      cases comment <;> rfl
  | warning hspan =>
      rw [hmoved hspan]
      rfl

end

end Pairing

/-- Nothing is open, and the text from `p` on is left to read. -/
structure State.Resumes (s : State) (options : Options) (p : Position) (text : List Char) : Prop where
  rest : s.rest = Slot.significant none (Scan.lexemes p text)
  endOfFile : s.endOfFile = p.advancedBy text
  commentAtEnd : s.commentAtEnd = Slot.pendingAfter none (Scan.lexemes p text)
  previousEnd : s.previousEnd = p
  delimiters : s.delimiters = []
  depth : s.depth = 0
  options : s.options = options

section
variable {lines : String} {s : State} {options : Options} {text : List Char}

theorem State.Resumes.alike (h : s.Resumes options (Position.origin.shiftedBy lines) text) :
    (Pairing.shifted lines s.consumed s.reports).Alike s (State.ofText options Position.origin text) := by
  obtain ⟨hslots, hlast⟩ := Pairing.slots_significant
    (@Pairing.tokens_shifted lines s.consumed s.reports Position.origin text) .none
  rw [State.ofText_eq]
  exact
    { rest := by
        rw [h.rest]
        exact hslots
      endOfFile := h.endOfFile.trans (Position.advancedBy_shiftedBy lines _ text)
      commentAtEnd := fun _ => by
        rw [h.commentAtEnd]
        exact hlast
      consumed := (Nat.zero_add _).symm
      previousEnd := h.previousEnd
      delimiters := h.delimiters
      depth := h.depth
      options := fun _ => h.options
      reports := ⟨[], rfl, .nil⟩ }

theorem State.Resumes.statements (h : s.Resumes options (Position.origin.shiftedBy lines) text)
    {body body' : List Node} {s₁ t₁ : State}
    (hlist : statementList statement false s = .ok body s₁)
    (halone : statementList statement false (State.ofText options Position.origin text) = .ok body' t₁) :
    body = body'.map (·.mapPositions (·.shiftedBy lines)) ∧
      ∃ later, s₁.reports = later ++ s.reports ∧
        (∀ d ∈ later, lines.utf8ByteSize ≤ d.span.start.offset) ∧
        Diagnostic.inSourceOrder later.reverse =
          t₁.diagnostics.map (·.mapPositions (·.shiftedBy lines)) := by
  obtain ⟨hbody, hstates⟩ := h.alike.statements hlist halone
  obtain ⟨later, hlater, hreports⟩ := hstates.reports
  have hkeeps : ∀ d, (Pairing.shifted lines s.consumed s.reports).keeps d = true :=
    fun d => Bool.or_true d.isError
  rw [List.filter_eq_self.mpr fun d _ => hkeeps d, List.filter_eq_self.mpr fun d _ => hkeeps d] at hreports
  have hsorted : Diagnostic.inSourceOrder later.reverse =
      t₁.diagnostics.map (·.mapPositions (·.shiftedBy lines)) := by
    have hsorted := Diagnostic.forall₂_inSourceOrder ?_ (List.rel_reverse hreports)
    · have hsame := hsorted.imp fun d d' hd => Pairing.Diagnostics.eq_mapPositions hd
      exact List.forall₂_eq_eq_eq ▸ List.forall₂_map_right_iff.mpr hsame
    · intro d d' e e' hd he
      have hplace : d.span.start = d'.span.start.shiftedBy lines := hd.span.start
      have hbehind : e.span.start = e'.span.start.shiftedBy lines := he.span.start
      rw [hplace, hbehind]
      exact Nat.add_lt_add_iff_right
  refine ⟨Pairing.eq_map_of_shifted hbody, later, hlater, ?_, hsorted⟩
  intro d hd
  have hmem : d ∈ Diagnostic.inSourceOrder later.reverse :=
    (Diagnostic.inSourceOrder_perm _).mem_iff.mpr (List.mem_reverse.mpr hd)
  rw [hsorted] at hmem
  obtain ⟨d', -, rfl⟩ := List.mem_map.mp hmem
  rw [Diagnostic.span_mapPositions]
  exact Nat.le_add_left _ _

end

theorem State.resumes_ofText (options : Options) (text : List Char) :
    (State.ofText options Position.origin text).Resumes options (Position.origin.shiftedBy "") text := by
  rw [State.ofText_eq]
  exact ⟨rfl, rfl, rfl, rfl, rfl, rfl, rfl⟩

/-- A diagnostic of a parse quotes no line but that of its own place, so it stays as it is where places do. -/
theorem diagnostics_mapPositions_id (source : String) (options : Options) :
    (parse source options).diagnostics.map (·.mapPositions id) = (parse source options).diagnostics := by
  obtain ⟨body, last, hrun, hresult⟩ := parseTokens_eq options Position.origin source.toList
  obtain ⟨-, later, hlater, -, hsorted⟩ := (State.resumes_ofText options source.toList).statements hrun hrun
  rw [State.ofText_eq, List.append_nil] at hlater
  rw [parse_eq_parseTokens, hresult]
  show last.diagnostics.map _ = last.diagnostics
  rw [← hlater] at hsorted
  exact hsorted.symm

end ScriptSyntax
