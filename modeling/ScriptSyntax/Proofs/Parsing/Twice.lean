import ScriptSyntax.Proofs.Parsing.Shifted
import ScriptSyntax.Proofs.Token.Stored
import ScriptSyntax.Proofs.Tree.Every

/-!
Two runs over one text, with options that may differ.  They read the same tree, and each place of it is a place
of the text: what a run takes from its tokens are the places where they begin and end.
-/

namespace ScriptSyntax

/-- A place of the text: where some part from its beginning on ends. -/
def Position.In (text : List Char) (p : Position) : Prop :=
  ∃ before behind, text = before ++ behind ∧ p = origin.advancedBy before

theorem Position.In.offset_le {text : List Char} {p : Position} (h : p.In text) :
    p.offset ≤ Text.byteLength text := by
  obtain ⟨before, behind, rfl, rfl⟩ := h
  rw [Text.advancedBy_offset, Text.byteLength_append]
  simp [origin]

structure Span.In (text : List Char) (span : Span) : Prop where
  start : span.start.In text
  stop : span.stop.In text

/-- Places correspond where they are one place of the text. -/
def Pairing.over (text : List Char) (warnings : Bool) : Pairing where
  start p q := p = q ∧ p.In text
  stop p q := p = q ∧ p.In text
  stop_of_start := id
  comments := true
  warnings
  comments_of_warnings _ := rfl
  skipped := 0
  earlier := []

namespace Pairing

variable {text : List Char} {warnings : Bool}

theorem tokens_over {token : Token} (htoken : token ∈ Scan.tokens Position.origin text) :
    (Pairing.over text warnings).Tokens token token := by
  obtain ⟨before, behind, htext, hspan⟩ := Scan.exists_split_of_mem htoken
  refine ⟨rfl, rfl, ⟨rfl, ?_⟩, ⟨rfl, ?_⟩⟩
  · rw [hspan]
    exact ⟨before, _, htext, rfl⟩
  · rw [hspan]
    exact ⟨before ++ token.text.toList, behind, by rw [htext, List.append_assoc], rfl⟩

theorem alike_over {options options' : Options} (hoptions : warnings = true → options = options') :
    (Pairing.over text warnings).Alike (State.ofText options Position.origin text)
      (State.ofText options' Position.origin text) := by
  have htokens : List.Forall₂ (Pairing.over text warnings).Tokens (Scan.lexemes Position.origin text)
      (Scan.lexemes Position.origin text) := by
    rw [List.forall₂_same]
    intro token htoken
    apply tokens_over
    rw [Scan.tokens_eq]
    exact List.mem_append_left _ htoken
  obtain ⟨hslots, hlast⟩ := slots_significant htokens .none
  have horigin : Position.origin.In text := ⟨[], text, rfl, rfl⟩
  have hend : (Position.origin.advancedBy text).In text := ⟨text, [], (List.append_nil text).symm, rfl⟩
  rw [State.ofText_eq, State.ofText_eq]
  exact
    { rest := hslots
      endOfFile := ⟨rfl, hend⟩
      commentAtEnd := fun _ => hlast
      consumed := rfl
      previousEnd := ⟨rfl, horigin⟩
      delimiters := rfl
      depth := rfl
      options := hoptions
      reports := ⟨[], rfl, .nil⟩ }

/-! ### What corresponds is the same -/

theorem Spans.eq_over {span span' : Span} (h : (Pairing.over text warnings).Spans span span') :
    span = span' :=
  Span.ext h.start.1 h.stop.1

theorem Spans.in_over {span span' : Span} (h : (Pairing.over text warnings).Spans span span') :
    span.In text :=
  ⟨h.start.2, h.stop.2⟩

theorem eq_over {nodes nodes' : List Node}
    (h : List.Forall₂ (Pairing.over text warnings).Nodes nodes nodes') : nodes = nodes' := by
  have hplaces : ∀ p q, (Pairing.over text warnings).start p q → id p = id q := fun _ _ hplace => hplace.1
  have hsame := map_mapPositions hplaces hplaces h
  have hkept : (·.mapPositions id) = (id : Node → Node) := funext Node.mapPositions_id
  rwa [hkept, List.map_id, List.map_id] at hsame

theorem Diagnostics.eq_over {d d' : Diagnostic} (h : (Pairing.over text warnings).Diagnostics d d') :
    d = d' := by
  cases h with
  | error herror =>
      cases herror with
      | same _ hspan => rw [hspan.eq_over]
      | block hspan => rw [hspan.eq_over]
  | gap comment comment' hspan hcomment => rw [hcomment rfl, hspan.eq_over]
  | warning hspan => rw [hspan.eq_over]

theorem Nodes.in_over {n : Node} (h : (Pairing.over text warnings).Nodes n n) :
    n.Every fun m => m.span.In text := by
  induction n with
  | node kind children span literal ih =>
      have hchildren := List.forall₂_same.mp h.children
      refine Node.every_iff.mpr ⟨h.span.in_over, ?_⟩
      intro child hchild
      exact ih child hchild (hchildren child hchild)

end Pairing

theorem parse_in (source : String) (options : Options) :
    ((parse source options).root.Every fun n => n.span.In source.toList) ∧
      ∀ d ∈ (parse source options).diagnostics, d.span.In source.toList := by
  obtain ⟨body, s, hrun, hresult⟩ := parseTokens_eq options Position.origin source.toList
  have halike : (Pairing.over source.toList true).Alike
      (State.ofText options Position.origin source.toList)
      (State.ofText options Position.origin source.toList) := Pairing.alike_over fun _ => rfl
  obtain ⟨hbody, hstates⟩ := halike.statements hrun hrun
  rw [List.forall₂_same] at hbody
  rw [parse_eq_parseTokens, hresult]
  constructor
  · have hroot : Span.In source.toList ⟨Position.origin, Position.origin.advancedBy source.toList⟩ :=
      ⟨⟨[], source.toList, rfl, rfl⟩, ⟨source.toList, [], (List.append_nil _).symm, rfl⟩⟩
    exact Node.every_iff.mpr ⟨hroot, fun n hn => (hbody n hn).in_over⟩
  · obtain ⟨later, hlater, hreports⟩ := hstates.reports
    obtain rfl : s.reports = later := hlater.trans (List.append_nil later)
    have hkeeps : ∀ d, (Pairing.over source.toList true).keeps d = true := fun d => Bool.or_true d.isError
    rw [List.filter_eq_self.mpr fun d _ => hkeeps d, List.forall₂_same] at hreports
    intro d hd
    have hreported := (Diagnostic.inSourceOrder_perm _).mem_iff.mp hd
    exact (hreports d (List.mem_reverse.mp hreported)).span.in_over

end ScriptSyntax
