import ScriptSyntax.Proofs.Parsing.Places
import ScriptSyntax.Proofs.Parsing.Shape

/-!
No token is dropped.  The nodes of a list of statements lie side by side over the tokens that are read for
them, `Reads.tiles`, so each token of a source belongs to one statement of a list and to no other,
`parse_covers`.
-/

namespace ScriptSyntax

/-! ### Tokens behind and ahead -/

section
variable {last eof : Nat} {s s' : State} {slot : Slot}

theorem State.Bounded.ahead (hs : s.Bounded last eof) (hslot : slot ∈ s.rest) :
    s.place ≤ slot.token.span.start.offset ∧
      slot.token.span.start.offset < slot.token.span.stop.offset ∧
      slot.token.span.stop.offset ≤ eof := by
  have hordered := hs.ordered
  have hslot' := hordered.of_mem hslot
  rw [hs.eof] at hslot'
  refine ⟨?_, hslot'.2⟩
  cases hrest : s.rest with
  | nil => simp [hrest] at hslot
  | cons first rest =>
      have hplace : s.place = first.token.span.start.offset := by
        rw [State.place, State.current, State.slot_of_cons hrest]
      rw [hrest] at hordered hslot
      obtain ⟨-, hwidth, -, hlater⟩ := hordered
      rcases List.mem_cons.mp hslot with rfl | hmem
      · exact Nat.le_of_eq hplace
      · have hafter := hlater.of_mem hmem
        omega

theorem State.Bounded.left_or_behind (hs : s.Bounded last eof)
    (hpasses : ∃ passed, s.rest = passed ++ s'.rest ∧
      s'.previousEnd = Slot.endAfter s.previousEnd passed)
    (hslot : slot ∈ s.rest) : slot ∈ s'.rest ∨ slot.token.span.stop.offset ≤ s'.behind := by
  obtain ⟨passed, hrest, hend⟩ := hpasses
  have hordered := hs.ordered
  rw [hrest] at hslot hordered
  rcases List.mem_append.mp hslot with hpassed | hleft
  · right
    rw [State.behind, hend]
    exact hordered.stop_le_endAfter hpassed
  · exact .inl hleft

theorem State.mem_rest_advanced (hslot : slot ∈ s.rest)
    (hplace : s.place < slot.token.span.start.offset) : slot ∈ s.advanced.rest := by
  cases hrest : s.rest with
  | nil => simp [hrest] at hslot
  | cons first rest =>
      rw [hrest] at hslot
      rw [State.rest_advanced hrest]
      rcases List.mem_cons.mp hslot with rfl | hmem
      · rw [State.place, State.current, State.slot_of_cons hrest] at hplace
        exact absurd hplace (Nat.lt_irrefl _)
      · exact hmem

theorem State.Bounded.stop_le (hs : s.Bounded last eof) (hslot : slot ∈ s.rest) :
    s.current.span.stop.offset ≤ slot.token.span.stop.offset := by
  have hordered := hs.ordered
  cases hrest : s.rest with
  | nil => simp [hrest] at hslot
  | cons first rest =>
      rw [hrest] at hslot hordered
      rw [State.current, State.slot_of_cons hrest]
      rcases List.mem_cons.mp hslot with rfl | hmem
      · exact Nat.le_refl _
      · have hlater := hordered.2.2.2.of_mem hmem
        omega

/-! ### Nodes side by side -/

/-- The node begins where the first token between two states does, and reaches up to the last one but not
into the token after it. -/
structure Node.Fills (n : Node) (s s' : State) : Prop where
  start : n.span.start.offset = s.place
  behind : s'.behind ≤ n.span.stop.offset
  place : n.span.stop.offset ≤ s'.place

/-- The nodes lie side by side over the tokens between two states, with nothing but separators between
them. -/
inductive Tiles : List Node → State → State → Prop where
  | none {s : State} : Tiles [] s s
  | separators {nodes : List Node} {s s' : State} (h : Tiles nodes s.pastSeparators s') : Tiles nodes s s'
  | node {n : Node} {more : List Node} {s s₁ s₂ : State} (hadvances : s.Advances s₁)
      (hfills : n.Fills s s₁) (hmore : Tiles more s₁ s₂) : Tiles (n :: more) s s₂

theorem Node.fills_skipped (hs : s.Bounded last eof) (hadvances : s.Advances s') :
    (Node.error (s'.spanSince s.mark) []).Fills s s' := by
  have hplaced := Node.placed_skipped hs hadvances
  refine ⟨?_, ?_, hplaced.stop_le (hs.advances hadvances)⟩
  · rw [State.spanSince_mark hadvances]
    split <;> rfl
  · have hconsumed := hadvances.consumed
    have hplace := hs.behind_le_place
    rw [State.spanSince_mark hadvances]
    split
    · exact Nat.le_refl _
    · rcases hs.places hadvances with ⟨-, hbehind, -⟩ | ⟨hbehind, hkind⟩
      · rw [hbehind]
        exact hplace
      · -- nothing is consumed, so no token can be behind
        have hlength : s'.rest.length = s.rest.length := by
          have hle := hadvances.length_le
          omega
        obtain ⟨passed, hrest, hend⟩ := hadvances.passes
        obtain rfl : passed = [] := by
          rw [hrest, List.length_append] at hlength
          exact List.length_eq_zero_iff.mp (by omega)
        rw [State.behind, hend]
        exact hplace

end

theorem Reads.fills_statement {last eof : Nat} {clean : Bool} {n : Node} {s s' : State}
    (h : Reads clean .statement [n] s s') (hs : s.Bounded last eof) : n.Fills s s' := by
  obtain ⟨hstart, hbehind⟩ := List.forall_mem_singleton.mp (h.reaches hs)
  have hlies := h.lies.single hs (Nat.le_refl s.place)
  exact ⟨congrArg Position.offset hstart, hbehind, hlies.1.stop_le (hs.advances h.advances)⟩

theorem Reads.tiles {last eof : Nat} {clean : Bool} {part : Part} {nodes : List Node} {s s' : State}
    (h : Reads clean part nodes s s') : ∀ inBlock, part = .statements inBlock → s.Bounded last eof →
      Tiles nodes s s' := by
  induction h with
  | noStatements =>
      rintro _ ⟨⟩ -
      exact .separators .none
  | @whole inBlock node rest s s₁ s₂ _ hstatement _ _ _ ih =>
      rintro _ ⟨⟩ hs
      have hstart := hs.advances s.advances_pastSeparators
      refine .separators (.node hstatement.advances (hstatement.fills_statement hstart) ?_)
      exact ih _ rfl (hstart.advances hstatement.advances)
  | @joined inBlock node rest s s₁ s₂ s₃ _ hstatement _ hrecovered _ _ _ ih =>
      rintro _ ⟨⟩ hs
      have hstart := hs.advances s.advances_pastSeparators
      have hmiddle := hstart.advances hstatement.advances
      have hskips : s₁.Advances s₂ := by
        rw [hrecovered]
        exact (s₁.advances_reported _).trans (State.advances_recovered _ _ _)
      refine .separators (.node hstatement.advances (hstatement.fills_statement hstart) ?_)
      refine .node hskips (Node.fills_skipped hmiddle hskips) ?_
      exact ih _ rfl (hmiddle.advances hskips)
  | @broken inBlock levels e rest s s₁ s₂ s₃ _ hstatement hrecovered _ _ ih =>
      rintro _ ⟨⟩ hs
      have hstart := hs.advances s.advances_pastSeparators
      have hskips : s.pastSeparators.Advances s₂ := by
        rw [hrecovered]
        have hfailed := Parser.Forward.advances_of_error _ hstatement
        exact hfailed.trans ((s₁.advances_reported _).trans (State.advances_recovered _ _ _))
      refine .separators (.node hskips (Node.fills_skipped hstart hskips) ?_)
      exact ih _ rfl (hstart.advances hskips)
  | _ =>
      intro _ hpart
      cases hpart

/-! ### Tokens and their nodes -/

/-- A token of the kind is part of a statement. -/
def TokenKind.isContent (kind : TokenKind) : Bool :=
  !kind.isTrivia && !kind.isSeparator && kind ≠ .endOfFile

/-- The number of nodes whose span the token lies in. -/
def Token.holders (t : Token) (nodes : List Node) : Nat :=
  nodes.countP (·.span.contains t.span)

theorem State.mem_rest_pastWhile {s : State} {slot : Slot} {p : TokenKind → Bool} (hslot : slot ∈ s.rest)
    (hkind : p slot.kind = false) : slot ∈ (State.pastWhile p s.rest s).rest := by
  rw [State.rest_pastWhile]
  rw [← List.takeWhile_append_dropWhile (p := (p ·.kind)) (l := s.rest)] at hslot
  rcases List.mem_append.mp hslot with hskipped | hleft
  · have hpassed := List.mem_takeWhile_imp hskipped
    exact absurd hpassed (by simp [hkind])
  · exact hleft

section
variable {last eof : Nat} {nodes : List Node} {s s' : State} {slot : Slot}

theorem Tiles.advances (h : Tiles nodes s s') : s.Advances s' := by
  induction h with
  | none => exact .refl _
  | separators _ ih => exact (State.advances_pastSeparators _).trans ih
  | node hadvances _ _ ih => exact hadvances.trans ih

theorem Tiles.holders_before (h : Tiles nodes s s') (hs : s.Bounded last eof)
    (hstart : slot.token.span.start.offset < s.place) : slot.token.holders nodes = 0 := by
  induction h with
  | none => rfl
  | @separators nodes s s' _ ih =>
      have hplace := hs.place_le s.advances_pastSeparators
      exact ih (hs.advances s.advances_pastSeparators) (by omega)
  | @node n more s s₁ s₂ hadvances hfills _ ih =>
      have hmore := ih (hs.advances hadvances) (Nat.lt_of_lt_of_le hstart (hs.place_le hadvances))
      have hout : n.span.contains slot.token.span = false := by
        simp only [Span.contains, hfills.start, Bool.and_eq_false_iff, decide_eq_false_iff_not]
        exact .inl (Nat.not_le.mpr hstart)
      simp [Token.holders, hout] at hmore ⊢
      exact hmore

theorem Tiles.holders_eq (h : Tiles nodes s s') (hs : s.Bounded last eof) (hslot : slot ∈ s.rest)
    (hkind : slot.kind.isSeparator = false) :
    slot.token.holders nodes = if slot ∈ s'.rest then 0 else 1 := by
  induction h with
  | none => simp [Token.holders, hslot]
  | @separators nodes s s' _ ih =>
      exact ih (hs.advances s.advances_pastSeparators) (State.mem_rest_pastWhile hslot hkind)
  | @node n more s s₁ s₂ hadvances hfills hmore ih =>
      have hs₁ := hs.advances hadvances
      obtain ⟨hafter, hwidth, -⟩ := hs.ahead hslot
      have hcount : slot.token.holders (n :: more) =
          slot.token.holders more + if n.span.contains slot.token.span then 1 else 0 := by
        simp [Token.holders, List.countP_cons]
      rw [hcount]
      rcases hs.left_or_behind hadvances.passes hslot with hleft | hbehind
      · obtain ⟨hlater, -⟩ := hs₁.ahead hleft
        have hplace := hfills.place
        have hout : n.span.contains slot.token.span = false := by
          simp only [Span.contains, Bool.and_eq_false_iff, decide_eq_false_iff_not]
          right
          omega
        rw [hout, ih hs₁ hleft]
        rfl
      · have hplace := hs₁.behind_le_place
        have hreaches := hfills.behind
        have hin : n.span.contains slot.token.span = true := by
          simp only [Span.contains, Bool.and_eq_true, decide_eq_true_eq, hfills.start]
          omega
        have hnone : slot ∉ s₂.rest := by
          intro hmem
          obtain ⟨hlater, -⟩ := hs₁.ahead (hmore.advances.rest.subset hmem)
          omega
        rw [hin, hmore.holders_before hs₁ (by omega), if_neg hnone]
        rfl

end

theorem Reads.exists_of_block {part : Part} {n : Node} {s s' : State} (h : Reads false part [n] s s')
    (hmakes : part.makes) (hkind : n.kind = .block) :
    ∃ body s₁, n = Node.branch .block (s.current.span.through s₁.current.span) body ∧
      s.kind = .leftBrace ∧ s₁.kind = .rightBrace ∧
      Reads false (.statements true) body (s.entered.advanced.opened .rightBrace false) s₁ := by
  cases h with
  | block _ hopener hbody hclosing => exact ⟨_, _, rfl, hopener, hclosing, hbody⟩
  | literal hliteral =>
      obtain rfl : _ = NodeKind.block := hkind
      obtain ⟨-, hblock⟩ | ⟨-, hblock⟩ | ⟨-, hblock⟩ := Parser.literalKind?_cases hliteral
      all_goals cases hblock
  | @operation _ _ _ form => cases form <;> cases hkind
  | assign _ hassignment | misassign _ hassignment =>
      obtain rfl : _ = NodeKind.block := hkind
      obtain ⟨-, hblock⟩ | ⟨-, hblock⟩ | ⟨-, hblock⟩ := Parser.assignmentKind?_cases hassignment
      all_goals cases hblock
  | _ => first | cases hkind | cases hmakes

/-! ### Blocks and the whole source -/

theorem State.Within.bounded {last eof : Nat} {first s : State} (h : first.Within s)
    (hfirst : first.Bounded last eof) : s.Bounded last eof :=
  hfirst.of_passes h.passes h.endOfFile

theorem Origin.holders_eq {last eof : Nat} {first : State} {n : Node} (h : Origin first n)
    (hfirst : first.Bounded last eof) (hblock : n.kind = .block) {slot : Slot}
    (hslot : slot ∈ first.rest) (hkind : slot.kind.isSeparator = false)
    (hstart : n.span.start.offset < slot.token.span.start.offset)
    (hstop : slot.token.span.stop.offset < n.span.stop.offset) :
    slot.token.holders n.children = 1 := by
  cases h with
  | @made part _ s s' hs _ hmakes hreads =>
      obtain ⟨body, s₁, rfl, hopener, hclosing, hbody⟩ := hreads.exists_of_block hmakes hblock
      have hstart : s.place < slot.token.span.start.offset := hstart
      have hstop : slot.token.span.stop.offset < s₁.current.span.stop.offset := hstop
      have hbounded := hs.bounded hfirst
      have hinside := (hbounded.advances (s.advances_entered.trans s.entered.advances_advanced)).opened
        .rightBrace false
      have hend := hinside.advances hbody.advances
      have hwidth := hfirst.ahead hslot
      have hplace := hbounded.behind_le_place
      have hleft : slot ∈ s.rest := by
        rcases hfirst.left_or_behind hs.passes hslot with hleft | hbehind
        · exact hleft
        · omega
      have hbetween : slot ∈ (s.entered.advanced.opened .rightBrace false).rest := by
        have hentered : slot ∈ s.entered.rest := hleft
        exact State.mem_rest_advanced hentered hstart
      have hnone : slot ∉ s₁.rest := by
        intro hmem
        have hafter := hend.stop_le hmem
        omega
      have hholders := (hbody.tiles true rfl hinside).holders_eq hinside hbetween hkind
      rwa [if_neg hnone] at hholders
  | _ => cases hblock

theorem exists_slot_of_mem_tokenize {source : String} {t : Token} (options : Options)
    (ht : t ∈ tokenize source) (hcontent : t.kind.isContent) :
    ∃ slot ∈ (State.ofSource source options).rest, slot.token = t ∧ slot.kind.isSeparator = false := by
  obtain ⟨⟨htrivia, hseparator⟩, hfile⟩ :
      (t.kind.isTrivia = false ∧ t.kind.isSeparator = false) ∧ t.kind ≠ .endOfFile := by
    simpa [TokenKind.isContent] using hcontent
  have hlexeme : t ∈ Scan.lexemes Position.origin source.toList := by
    rw [tokenize, Scan.tokens_eq] at ht
    rcases List.mem_append.mp ht with hlexeme | hend
    · exact hlexeme
    · obtain rfl := List.mem_singleton.mp hend
      exact absurd rfl hfile
  have hmem : t ∈ (State.ofSource source options).rest.map (·.token) := by
    rw [rest_ofSource, Slot.map_token_significant]
    exact List.mem_filter.mpr ⟨hlexeme, by simp [htrivia]⟩
  obtain ⟨slot, hslot, rfl⟩ := List.mem_map.mp hmem
  exact ⟨slot, hslot, rfl, hseparator⟩

/-- Every token of a source that is part of a statement lies in exactly one child of the root, and between the
braces of a block in exactly one child of the block. -/
theorem parse_covers (source : String) (options : Options) :
    ∀ t ∈ tokenize source, t.kind.isContent →
      t.holders (parse source options).root.children = 1 ∧
        ∀ n ∈ (parse source options).root.preorder, n.kind = .block →
          n.span.start.offset < t.span.start.offset → t.span.stop.offset < n.span.stop.offset →
            t.holders n.children = 1 := by
  intro t ht hcontent
  obtain ⟨body, s', hroot, -, hreads, hrest⟩ := parse_reads source options
  obtain ⟨slot, hslot, rfl, hkind⟩ := exists_slot_of_mem_tokenize options ht hcontent
  have hbounded := bounded_ofSource source options
  have hbelow := hreads.every_origin (State.regular_ofSource source options).within trivial nofun
  rw [hroot]
  constructor
  · have hholders := (hreads.tiles false rfl hbounded).holders_eq hbounded hslot hkind
    rwa [hrest, if_neg List.not_mem_nil] at hholders
  · intro n hn hblock hstart hstop
    rcases Node.mem_preorder.mp hn with rfl | ⟨child, hchild, hn⟩
    · cases hblock
    · exact (hbelow child hchild n hn).holders_eq hbounded hblock hslot hkind hstart hstop

/-- A block in which a statement runs into another: the second name is skipped, and not dropped. -/
theorem covers_joined_names :
    ∃ t ∈ tokenize "if a \x7b b c \x7d", ∃ n ∈ (parse "if a \x7b b c \x7d" {}).root.preorder,
      t.text = "c" ∧ n.kind = .block ∧ t.holders n.children = 1 ∧
        t.holders (parse "if a \x7b b c \x7d" {}).root.children = 1 := by
  have hinside : ∃ t ∈ tokenize "if a \x7b b c \x7d",
      ∃ n ∈ (parse "if a \x7b b c \x7d" {}).root.preorder, t.text = "c" ∧ t.kind.isContent ∧
        n.kind = .block ∧ n.span.start.offset < t.span.start.offset ∧
          t.span.stop.offset < n.span.stop.offset := by
    decide +kernel
  obtain ⟨t, ht, n, hn, htext, hcontent, hblock, hstart, hstop⟩ := hinside
  obtain ⟨hroot, hbelow⟩ := parse_covers "if a \x7b b c \x7d" {} t ht hcontent
  exact ⟨t, ht, n, hn, htext, hblock, hbelow n hn hblock hstart hstop, hroot⟩

end ScriptSyntax
