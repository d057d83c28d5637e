import ScriptSyntax.Proofs.Parsing.Bounded
import ScriptSyntax.Proofs.Tree.Every

/-!
Nodes between two places of a source.  `Part.Lies` says it of what a part of the grammar gives, and it is
kept by each of the ways in which the grammar makes a node of others: a node that goes through its last part,
a node around what stands in brackets, a part behind another one.
-/

namespace ScriptSyntax

namespace Node

/-- The node ends where the other begins or before. -/
def Before (a b : Node) : Prop := a.span.stop.offset ≤ b.span.start.offset

/-- The parts of the node lie one behind the other inside of it, unless it stands for a block that the
file ends in and the part ends there. -/
structure Orderly (last eof : Nat) (n : Node) : Prop where
  inside : ∀ child ∈ n.children, n.span.start.offset ≤ child.span.start.offset ∧
    (child.span.stop.offset ≤ n.span.stop.offset ∨
      n.kind = .errorNode ∧ n.span.stop.offset = last ∧ child.span.stop.offset = eof)
  ordered : ∀ child ∈ n.children, child.span.start.offset ≤ child.span.stop.offset
  inOrder : n.children.Pairwise Before

/-- The node lies between two offsets. -/
structure Inside (last eof p q : Nat) (n : Node) : Prop where
  start : p ≤ n.span.start.offset
  ordered : n.span.start.offset ≤ n.span.stop.offset
  stop : n.span.stop.offset ≤ q
  below : n.Every (Orderly last eof)

/-- The node is read between the offset `base` and a state, and so are the nodes below it. -/
structure Placed (last eof base : Nat) (s : State) (n : Node) : Prop where
  start : base ≤ n.span.start.offset
  ordered : n.span.start.offset ≤ n.span.stop.offset
  stop : n.span.stop.offset ≤ s.behind ∨ n.span.stop.offset = s.place
  below : n.Every (Orderly last eof)

variable {last eof base : Nat} {s s' : State} {n : Node}

theorem Placed.inside {q : Nat} (h : n.Placed last eof base s) (hstop : n.span.stop.offset ≤ q) :
    n.Inside last eof base q :=
  ⟨h.start, h.ordered, hstop, h.below⟩

theorem Placed.stop_le (h : n.Placed last eof base s) (hs : s.Bounded last eof) :
    n.span.stop.offset ≤ s.place := by
  have hplace := hs.behind_le_place
  rcases h.stop with hstop | hstop <;> omega

theorem Placed.closed (h : n.Placed last eof base s) : n.Placed last eof base s.closed :=
  ⟨h.start, h.ordered, h.stop, h.below⟩

theorem Placed.leaving (h : n.Placed last eof base s) (depth : Nat) :
    n.Placed last eof base (s.leaving depth) :=
  ⟨h.start, h.ordered, h.stop, h.below⟩

theorem Placed.weaken {base' : Nat} (h : n.Placed last eof base s) (hbase : base' ≤ base) :
    n.Placed last eof base' s :=
  ⟨Nat.le_trans hbase h.start, h.ordered, h.stop, h.below⟩

theorem Placed.advances (h : n.Placed last eof base s) (hs : s.Bounded last eof)
    (hadvances : s.Advances s') : n.Placed last eof base s' := by
  refine ⟨h.start, h.ordered, ?_, h.below⟩
  have hbehind := hs.behind_le hadvances
  have hstop := hs.place_le_stop
  rcases h.stop with hn | hn
  · omega
  · rcases hs.places hadvances with hsame | hmore <;> omega

theorem Placed.stop_le_behind (h : n.Placed last eof base s) (hs : s.Bounded last eof)
    (hadvances : s.Advances s') (hkind : s'.kind ≠ .endOfFile) :
    n.span.stop.offset ≤ s'.advanced.behind := by
  have hs' := hs.advances hadvances
  have hstop := (h.advances hs hadvances).stop_le hs'
  have hwidth := hs'.place_le_stop
  rw [State.behind_advanced hkind]
  omega

theorem placed_of_children {kind : NodeKind} {children : List Node} {span : Span}
    {literal : Option String} (hstart : base ≤ span.start.offset)
    (hordered : span.start.offset ≤ span.stop.offset)
    (hstop : span.stop.offset ≤ s.behind ∨ span.stop.offset = s.place)
    (hchildren : ∀ child ∈ children, child.Inside last eof span.start.offset span.stop.offset)
    (hinOrder : children.Pairwise Before) :
    (⟨kind, children, span, literal⟩ : Node).Placed last eof base s where
  start := hstart
  ordered := hordered
  stop := hstop
  below := every_iff.mpr
    ⟨⟨fun child hchild => ⟨(hchildren child hchild).start, .inl (hchildren child hchild).stop⟩,
        fun child hchild => (hchildren child hchild).ordered, hinOrder⟩,
      fun child hchild => (hchildren child hchild).below⟩

theorem placed_childless {kind : NodeKind} {span : Span} {literal : Option String}
    (hstart : base ≤ span.start.offset) (hordered : span.start.offset ≤ span.stop.offset)
    (hstop : span.stop.offset ≤ s.behind ∨ span.stop.offset = s.place) :
    (⟨kind, [], span, literal⟩ : Node).Placed last eof base s :=
  placed_of_children hstart hordered hstop (by simp) .nil

theorem Placed.errorWrapping (h : n.Placed last eof base s) :
    n.errorWrapping.Placed last eof base s := by
  refine placed_of_children h.start h.ordered h.stop ?_ (List.pairwise_singleton _ _)
  exact List.forall_mem_singleton.mpr ⟨Nat.le_refl _, h.ordered, Nat.le_refl _, h.below⟩

theorem placed_leaf (hs : s.Bounded last eof) (hkind : s.kind ≠ .endOfFile) (kind : NodeKind) :
    (s.leaf kind).Placed last eof s.place s.advanced ∧
      (s.leaf kind).span.stop.offset ≤ s.advanced.behind := by
  have hstop : (s.leaf kind).span.stop.offset ≤ s.advanced.behind := by
    rw [State.behind_advanced hkind]
    exact Nat.le_refl _
  exact ⟨placed_childless (Nat.le_refl _) hs.place_le_stop (.inl hstop), hstop⟩

end Node

theorem Node.placed_skipped {last eof : Nat} {s s' : State} (hs : s.Bounded last eof)
    (hadvances : s.Advances s') :
    (Node.error (s'.spanSince s.mark) []).Placed last eof s.place s' := by
  have hconsumed := hadvances.consumed
  have hwidth := hs.place_le_stop
  rw [State.spanSince_mark hadvances]
  split
  · rcases hs.places hadvances with hsame | ⟨hbehind, -⟩
    · omega
    · exact placed_childless (Nat.le_refl _) (Nat.le_trans hwidth hbehind) (.inl (Nat.le_refl _))
  · rcases hs.places hadvances with hsame | ⟨hbehind, hkind⟩
    · exact placed_childless (Nat.le_refl _) (Nat.le_refl _) (.inr hsame.2.2.symm)
    · have hstop := hs.place_lt_stop hkind
      exact placed_childless (Nat.le_refl _) (Nat.le_refl _)
        (.inl (Nat.le_of_lt (Nat.lt_of_lt_of_le hstop hbehind)))

namespace Part

def endsInToken : Part → Bool
  | list _ closer _ _ => closer ≠ .endOfFile
  | name | parameters | block | path | segments | moreSegments | clause _ | clauses _ => true
  | _ => false

/-- The part begins at the offset `base` or behind it. -/
def Begins (last eof base : Nat) (s : State) (part : Part) : Prop :=
  match part.left? with
  | some left => left.Placed last eof base s
  | none => base ≤ s.place

end Part

section
variable {last eof base : Nat}

/-- A part that gives one node gives it between its beginning and its end. -/
def Node.Lies (last eof base : Nat) (part : Part) (s' : State) (n : Node) : Prop :=
  n.Placed last eof base s' ∧ (part.endsInToken → n.span.stop.offset ≤ s'.behind)

theorem Node.Placed.lies {part : Part} {s' : State} {n : Node} (h : n.Placed last eof base s')
    (hends : part.endsInToken = false) : n.Lies last eof base part s' :=
  ⟨h, fun htoken => absurd (hends.symm.trans htoken) Bool.false_ne_true⟩

theorem State.Bounded.place_le_advanced {s : State} (hs : s.Bounded last eof) :
    s.place ≤ s.advanced.place :=
  hs.place_le s.advances_advanced

theorem State.Bounded.width_advanced {s s' : State} (hs : s.Bounded last eof)
    (hkind : s.kind ≠ .endOfFile) (hadvances : s.advanced.Advances s') :
    s.current.span.stop.offset ≤ s'.behind := by
  rw [← State.behind_advanced hkind]
  exact (hs.advances s.advances_advanced).behind_le hadvances

theorem Reads.advanced_of_list {opener closer : TokenKind} {expressionList : Bool} {item : Item}
    {nodes : List Node} {s s' : State}
    (h : Reads clean (.list opener closer expressionList item) nodes s s') :
    s.kind = opener ∧ s.advanced.Advances s' := by
  cases h with
  | emptyList hkind hcloser => exact ⟨hkind, (State.advances_pastNewlines_advanced _).closed⟩
  | @items _ _ _ _ first rest _ s₁ s₂ hkind hfirst hrest hcloser =>
      have hinside := s₁.advances_pastNewlines.trans (hrest.advances.trans s₂.advances_advanced)
      exact ⟨hkind, ((State.advances_pastNewlines _).trans (hfirst.advances.trans hinside)).closed⟩

theorem FunctionWords.advanced {isAsync : Bool} {s s' : State} (h : FunctionWords s isAsync s') :
    s.kind ≠ .endOfFile ∧ s.advanced.Advances s' := by
  cases h with
  | plain hfn => exact ⟨State.kind_ne_of_eq hfn (by simp), .refl _⟩
  | asyncFirst hasync => exact ⟨State.kind_ne_of_eq hasync (by simp), s.advanced.advances_advanced⟩
  | asyncLast hfn => exact ⟨State.kind_ne_of_eq hfn (by simp), s.advanced.advances_advanced⟩

theorem Node.placed_through {kind : NodeKind} {first : Node} {start : Position} {s : State}
    {literal : Option String} {base' : Nat} (others : List Node) (hbase : base ≤ start.offset)
    (hfirst : start.offset ≤ first.span.start.offset) (hplaced : first.Placed last eof base' s)
    (hothers : ∀ other ∈ others, other.Inside last eof start.offset first.span.start.offset)
    (hinOrder : others.Pairwise Before) :
    (⟨kind, others ++ [first], ⟨start, first.span.stop⟩, literal⟩ : Node).Placed last eof base s := by
  have hordered := hplaced.ordered
  refine placed_of_children hbase (Nat.le_trans hfirst hordered) hplaced.stop ?_ ?_
  · refine List.forall_mem_append.mpr ⟨fun other hother => ?_, List.forall_mem_singleton.mpr ?_⟩
    · have hinside := hothers other hother
      exact ⟨hinside.start, hinside.ordered, Nat.le_trans hinside.stop hordered, hinside.below⟩
    · exact ⟨hfirst, hordered, Nat.le_refl _, hplaced.below⟩
  · refine List.pairwise_append.mpr ⟨hinOrder, List.pairwise_singleton _ _, fun other hother => ?_⟩
    exact List.forall_mem_singleton.mpr (hothers other hother).stop

/-- A part goes forward, and its nodes lie one behind the other between its beginning and its end,
whatever it begins behind. -/
structure Part.Lies (last eof : Nat) (part : Part) (nodes : List Node) (s s' : State) : Prop where
  advances : s.Advances s'
  inOrder : s.Bounded last eof → nodes.Pairwise Node.Before
  nodes : ∀ base, s.Bounded last eof → part.Begins last eof base s →
    ∀ n ∈ nodes, n.Lies last eof base part s'

theorem Part.begins_of_left? {part : Part} {s : State} (hleft : part.left? = none)
    (hbase : base ≤ s.place) : part.Begins last eof base s := by
  rw [Part.Begins, hleft]
  exact hbase

theorem Part.place_le_of_begins {part : Part} {s : State} (hleft : part.left? = none)
    (h : part.Begins last eof base s) : base ≤ s.place := by
  rw [Part.Begins, hleft] at h
  exact h

namespace Node

variable {n : Node} {part part' : Part} {kind : NodeKind} {literal : Option String}
  {start : Position} {s s' s₁ s₂ : State}

theorem placed_through_two {first second : Node} (hbase : base ≤ start.offset)
    (hfirst : first.Placed last eof start.offset s₁) (hs₁ : s₁.Bounded last eof)
    (hsecond : second.Placed last eof s₁.place s₂) :
    (⟨kind, [first, second], ⟨start, second.span.stop⟩, literal⟩ : Node).Placed last eof base s₂ := by
  have hbetween := Nat.le_trans (hfirst.stop_le hs₁) hsecond.start
  have hordered := Nat.le_trans hfirst.start hfirst.ordered
  refine placed_through [first] hbase (Nat.le_trans hordered hbetween) hsecond ?_
    (List.pairwise_singleton _ _)
  exact List.forall_mem_singleton.mpr (hfirst.inside hbetween)

theorem placed_closed {nodes : List Node} (hs : s.Bounded last eof) (hkind : s.kind ≠ .endOfFile)
    (hbase : base ≤ start.offset) (hstart : start.offset ≤ s.place)
    (hnodes : ∀ n ∈ nodes, n.Placed last eof start.offset s) (hinOrder : nodes.Pairwise Before) :
    (⟨kind, nodes, ⟨start, s.current.span.stop⟩, literal⟩ : Node).Placed last eof base s.advanced := by
  have hwidth := hs.place_le_stop
  refine placed_of_children hbase (Nat.le_trans hstart hwidth)
    (.inl (Nat.le_of_eq (State.behind_advanced hkind).symm)) ?_ hinOrder
  exact fun n hn => (hnodes n hn).inside (Nat.le_trans ((hnodes n hn).stop_le hs) hwidth)

theorem Placed.self (h : n.Placed last eof base s) : n.Placed last eof n.span.start.offset s :=
  ⟨Nat.le_refl _, h.ordered, h.stop, h.below⟩

theorem Lies.advances (h : n.Lies last eof base part s) (hs : s.Bounded last eof)
    (hadvances : s.Advances s') : n.Lies last eof base part s' :=
  ⟨h.1.advances hs hadvances, fun hends => Nat.le_trans (h.2 hends) (hs.behind_le hadvances)⟩

theorem Lies.of_part (h : n.Lies last eof base part s)
    (hends : part'.endsInToken → part.endsInToken) : n.Lies last eof base part' s :=
  ⟨h.1, fun htoken => h.2 (hends htoken)⟩

end Node

namespace Part.Lies

variable {part first second : Part} {node value : Node} {nodes rest : List Node}
  {kind : NodeKind} {literal : Option String} {s s' s₀ s₁ s₂ s₃ : State}

theorem of_single (hadvances : s.Advances s')
    (hnode : ∀ base, s.Bounded last eof → part.Begins last eof base s →
      node.Lies last eof base part s') : part.Lies last eof [node] s s' where
  advances := hadvances
  inOrder _ := List.pairwise_singleton _ _
  nodes base hs hbase := List.forall_mem_singleton.mpr (hnode base hs hbase)

theorem single (h : part.Lies last eof [node] s s') {base : Nat} (hs : s.Bounded last eof)
    (hbase : part.Begins last eof base s) : node.Lies last eof base part s' :=
  h.nodes base hs hbase node (List.mem_singleton_self node)

theorem later (h : part.Lies last eof nodes s₀ s₁) (hleft : part.left? = none)
    (hs : s.Bounded last eof) (hskip : s.Advances s₀) :
    ∀ n ∈ nodes, n.Lies last eof s.place part s₁ :=
  h.nodes s.place (hs.advances hskip) (begins_of_left? hleft (hs.place_le hskip))

theorem later_single (h : part.Lies last eof [node] s₀ s₁) (hleft : part.left? = none)
    (hs : s.Bounded last eof) (hskip : s.Advances s₀) : node.Lies last eof s.place part s₁ :=
  h.later hleft hs hskip node (List.mem_singleton_self node)

theorem nil (hskip : s.Advances s') : part.Lies last eof [] s s' :=
  ⟨hskip, fun _ => .nil, fun _ _ _ => List.forall_mem_nil _⟩

theorem errorWrapping (h : part.Lies last eof [node] s s') :
    part.Lies last eof [node.errorWrapping] s s' :=
  of_single h.advances fun _ hs hbase =>
    ⟨(h.single hs hbase).1.errorWrapping, (h.single hs hbase).2⟩

theorem reported (h : part.Lies last eof nodes s s') (d : Diagnostic) :
    part.Lies last eof nodes s (s'.reported d) where
  advances := h.advances.trans (s'.advances_reported d)
  inOrder := h.inOrder
  nodes base hs hbase n hn :=
    (h.nodes base hs hbase n hn).advances (hs.advances h.advances) (s'.advances_reported d)

theorem of_part (h : first.Lies last eof nodes s₀ s') (hskip : s.Advances s₀)
    (hfirst : first.left? = none) (hleft : part.left? = none)
    (hends : part.endsInToken → first.endsInToken) : part.Lies last eof nodes s s' where
  advances := hskip.trans h.advances
  inOrder hs := h.inOrder (hs.advances hskip)
  nodes base hs hbase n hn := by
    have hplace := Nat.le_trans (place_le_of_begins hleft hbase) (hs.place_le hskip)
    exact (h.nodes base (hs.advances hskip) (begins_of_left? hfirst hplace) n hn).of_part hends

theorem leaf (kind : NodeKind) (hleft : part.left? = none) (hkind : s.kind ≠ .endOfFile) :
    part.Lies last eof [s.leaf kind] s s.advanced := by
  refine of_single s.advances_advanced fun base hs hbase => ?_
  obtain ⟨hleaf, hstop⟩ := Node.placed_leaf hs hkind kind
  exact ⟨hleaf.weaken (place_le_of_begins hleft hbase), fun _ => hstop⟩

theorem token (hkind : s.kind ≠ .endOfFile) (hleft : part.left? = none)
    (hends : part.endsInToken = false) :
    part.Lies last eof [⟨kind, [], s.current.span, literal⟩] s s.advanced := by
  refine of_single s.advances_advanced fun base hs hbase => Node.Placed.lies ?_ hends
  exact Node.placed_childless (place_le_of_begins hleft hbase) hs.place_le_stop
    (.inl (Nat.le_of_eq (State.behind_advanced hkind).symm))

theorem skipped (hadvances : s.Advances s') :
    Part.statement.Lies last eof [Node.error (s'.spanSince s.mark) []] s s' :=
  of_single hadvances fun _ hs hbase => ((Node.placed_skipped hs hadvances).weaken hbase).lies rfl

theorem append (hnodes : first.Lies last eof nodes s₀ s₁) (hrest : part.Lies last eof rest s₂ s₃)
    (hskip : s.Advances s₀) (hbetween : s₁.Advances s₂) (hfirst : first.left? = none)
    (hleft : part.left? = none) (hends : part.endsInToken → first.endsInToken) :
    part.Lies last eof (nodes ++ rest) s s₃ := by
  have hread := hskip.trans hnodes.advances
  refine ⟨hread.trans (hbetween.trans hrest.advances), fun hs => ?_, fun base hs hbase => ?_⟩
  · have hs₁ := hs.advances hread
    refine List.pairwise_append.mpr
      ⟨hnodes.inOrder (hs.advances hskip), hrest.inOrder (hs₁.advances hbetween), ?_⟩
    intro a ha b hb
    exact Nat.le_trans ((hnodes.later hfirst hs hskip a ha).1.stop_le hs₁)
      (hrest.later hleft hs₁ hbetween b hb).1.start
  · have hs₁ := hs.advances hread
    have hplace := place_le_of_begins hleft hbase
    have hbegins := Nat.le_trans hplace (hs.place_le (hread.trans hbetween))
    refine List.forall_mem_append.mpr ⟨fun n hn => ?_,
      hrest.nodes base (hs₁.advances hbetween) (begins_of_left? hleft hbegins)⟩
    have hpassed : part.Lies last eof nodes s s₁ := hnodes.of_part hskip hfirst hleft hends
    exact (hpassed.nodes base hs hbase n hn).advances hs₁ (hbetween.trans hrest.advances)

theorem cons (hnode : first.Lies last eof [node] s₀ s₁) (hrest : part.Lies last eof rest s₂ s₃)
    (hskip : s.Advances s₀) (hbetween : s₁.Advances s₂) (hfirst : first.left? = none)
    (hleft : part.left? = none) (hends : part.endsInToken → first.endsInToken) :
    part.Lies last eof (node :: rest) s s₃ :=
  hnode.append hrest hskip hbetween hfirst hleft hends

theorem named (hrest : part.Lies last eof rest s.advanced s') (hkind : s.kind ≠ .endOfFile)
    (hleft : part.left? = none) : part.Lies last eof (s.leaf .identifier :: rest) s s' := by
  have hname : Part.name.Lies last eof [s.leaf .identifier] s s.advanced := .leaf _ rfl hkind
  exact hname.cons hrest (.refl _) (.refl _) rfl hleft fun _ => rfl

theorem through_last (hnodes : first.Lies last eof nodes s₀ s₁)
    (hvalue : second.Lies last eof [value] s₂ s₃) (hskip : s.Advances s₀)
    (hbetween : s₁.Advances s₂) (hfirst : first.left? = none) (hsecond : second.left? = none)
    (hleft : part.left? = none) (hends : part.endsInToken → second.endsInToken) :
    part.Lies last eof
      [⟨kind, nodes ++ [value], s.current.span.through value.span, literal⟩] s s₃ := by
  have hread := hskip.trans hnodes.advances
  refine of_single (hread.trans (hbetween.trans hvalue.advances)) fun base hs hbase => ?_
  have hs₁ := hs.advances hread
  obtain ⟨hlast, hstop⟩ := hvalue.later_single hsecond hs₁ hbetween
  refine ⟨?_, fun htoken => hstop (hends htoken)⟩
  refine Node.placed_through nodes (place_le_of_begins hleft hbase)
    (Nat.le_trans (hs.place_le hread) hlast.start) hlast (fun n hn => ?_)
    (hnodes.inOrder (hs.advances hskip))
  obtain ⟨hplaced, -⟩ := hnodes.later hfirst hs hskip n hn
  exact hplaced.inside (Nat.le_trans (hplaced.stop_le hs₁) hlast.start)

theorem through (hvalue : first.Lies last eof [value] s.advanced s') (hfirst : first.left? = none)
    (hleft : part.left? = none) (hends : part.endsInToken → first.endsInToken) :
    part.Lies last eof [⟨kind, [value], s.current.span.through value.span, literal⟩] s s' := by
  have hnothing : Part.name.Lies last eof [] s s := .nil (.refl _)
  exact hnothing.through_last hvalue (.refl _) s.advances_advanced rfl hfirst hleft hends

theorem between {left right : Node} (hright : second.Lies last eof [right] s₂ s₃)
    (hleft : left.Placed last eof base s₁) (hs₁ : s₁.Bounded last eof) (hskip : s₁.Advances s₂)
    (hsecond : second.left? = none) (hends : part.endsInToken = false) :
    Node.Lies last eof base part s₃ ⟨kind, [left, right], left.span.through right.span, literal⟩ := by
  obtain ⟨hlast, -⟩ := hright.later_single hsecond hs₁ hskip
  exact (Node.placed_through_two hleft.start hleft.self hs₁ hlast).lies hends

theorem around (hnodes : first.Lies last eof nodes s₀ s') (hskip : s.Advances s₀)
    (hkind : s.kind ≠ .endOfFile) (hread : s.advanced.Advances s') (hfirst : first.left? = none)
    (hleft : part.left? = none) (hends : first.endsInToken) :
    part.Lies last eof [⟨kind, nodes, s'.spanFrom s.current.span.start, literal⟩] s s' := by
  refine of_single (hskip.trans hnodes.advances) fun base hs hbase => ⟨?_, fun _ => Nat.le_refl _⟩
  have hwidth := Nat.le_trans hs.place_le_stop (hs.width_advanced hkind hread)
  refine Node.placed_of_children (place_le_of_begins hleft hbase) hwidth (.inl (Nat.le_refl _)) ?_
    (hnodes.inOrder (hs.advances hskip))
  intro child hchild
  obtain ⟨hplaced, hstop⟩ := hnodes.later hfirst hs hskip child hchild
  exact hplaced.inside (hstop hends)

theorem before_block {a b : Node} (ha : first.Lies last eof [a] s s₁)
    (hb : Part.block.Lies last eof [b] s₁ s₂) (hfirst : first.left? = none) :
    Part.block.Lies last eof [a, b] s s₂ := by
  have hblock : ∀ {base : Nat}, s.Bounded last eof → base ≤ s.place →
      a.Placed last eof base s₁ ∧ b.Lies last eof s₁.place .block s₂ ∧ a.Before b := by
    intro base hs hbase
    have hs₁ := hs.advances ha.advances
    obtain ⟨hplaced, -⟩ := ha.single hs (begins_of_left? hfirst hbase)
    have hlast := hb.later_single rfl hs₁ (.refl _)
    exact ⟨hplaced, hlast, Nat.le_trans (hplaced.stop_le hs₁) hlast.1.start⟩
  refine ⟨ha.advances.trans hb.advances, fun hs => List.pairwise_pair.mpr ?_, fun base hs hbase => ?_⟩
  · exact (hblock hs (Nat.le_refl _)).2.2
  · obtain ⟨hplaced, ⟨hlast, hstop⟩, hbetween⟩ := hblock hs hbase
    have hs₁ := hs.advances ha.advances
    refine List.forall_mem_cons.mpr ⟨⟨hplaced.advances hs₁ hb.advances, fun _ => ?_⟩,
      List.forall_mem_singleton.mpr ?_⟩
    · exact Nat.le_trans hbetween (Nat.le_trans hlast.ordered (hstop rfl))
    · exact ⟨hlast.weaken (Nat.le_trans hbase (hs.place_le ha.advances)), hstop⟩

theorem climbed {power : BindingPower} {form : OperandForm} {left : Node}
    (hleft : (Part.operand form).Lies last eof [left] s.entered s₁)
    (hclimb : (Part.climb power left).Lies last eof [node] s₁ s₂) :
    (Part.expression power).Lies last eof [node] s (s₂.leaving s.depth) := by
  have hread := s.advances_entered.trans hleft.advances
  refine of_single (hread.trans hclimb.advances).leaving fun base hs hbase => ?_
  obtain ⟨hplaced, -⟩ := hleft.single (hs.advances s.advances_entered) hbase
  obtain ⟨hnode, -⟩ := hclimb.single (hs.advances hread) hplaced
  exact (hnode.leaving s.depth).lies rfl

theorem folded {power next : BindingPower} {form : OperatorForm} {left folded : Node}
    (hfolded : (Part.continuation next left form).Lies last eof [folded] s.entered s₁)
    (hclimb : (Part.climb power folded).Lies last eof [node] s₁ s₂) :
    (Part.climb power left).Lies last eof [node] s s₂ := by
  have hread := s.advances_entered.trans hfolded.advances
  refine of_single (hread.trans hclimb.advances) fun base hs hbase => ?_
  have hleft := Node.Placed.advances hbase hs s.advances_entered
  obtain ⟨hplaced, -⟩ := hfolded.single (hs.advances s.advances_entered) hleft
  exact hclimb.single (hs.advances hread) hplaced

theorem bare {power : BindingPower} (hvalue : (Part.expression power).Lies last eof [value] s s') :
    Part.assignment.Lies last eof [Node.branch .expressionStmt value.span [value]] s s' := by
  refine of_single hvalue.advances fun base hs hbase => ?_
  obtain ⟨hplaced, -⟩ := hvalue.single hs hbase
  exact (Node.placed_through [] hplaced.start (Nat.le_refl _) hplaced nofun .nil).lies rfl

theorem assign {power : BindingPower} {target : Node}
    (htarget : (Part.expression power).Lies last eof [target] s s₁)
    (hvalue : (Part.expression power).Lies last eof [value] s₁.advanced s₂) :
    Part.assignment.Lies last eof
      [⟨kind, [target, value], target.span.through value.span, literal⟩] s s₂ := by
  refine of_single (htarget.advances.trans (s₁.advances_advanced.trans hvalue.advances))
    fun base hs hbase => ?_
  obtain ⟨hplaced, -⟩ := htarget.single hs hbase
  exact hvalue.between hplaced (hs.advances htarget.advances) s₁.advances_advanced rfl rfl

theorem items {opener closer : TokenKind} {expressionList : Bool} {item : Item}
    (hitems : (Part.more item).Lies last eof nodes
      (s.advanced.opened closer expressionList).pastNewlines s₁) (hcloser : s₁.kind = closer) :
    (Part.list opener closer expressionList item).Lies last eof nodes s s₁.advanced.closed := by
  have hskip := (s.advanced.opened closer expressionList).advances_pastNewlines
  have hinside : s.Bounded last eof →
      (s.advanced.opened closer expressionList).pastNewlines.Bounded last eof ∧
        s.place ≤ (s.advanced.opened closer expressionList).pastNewlines.place := by
    intro hs
    have hopened := (hs.advances s.advances_advanced).opened closer expressionList
    exact ⟨hopened.advances hskip, Nat.le_trans hs.place_le_advanced (hopened.place_le hskip)⟩
  refine ⟨(hitems.advances.trans s₁.advances_advanced).bracketLines,
    fun hs => hitems.inOrder (hinside hs).1, fun base hs hbase n hn => ?_⟩
  obtain ⟨hs₀, hle⟩ := hinside hs
  have hs₁ := hs₀.advances hitems.advances
  obtain ⟨hplaced, -⟩ := hitems.nodes base hs₀ (Nat.le_trans hbase hle) n hn
  refine ⟨(hplaced.advances hs₁ s₁.advances_advanced).closed, fun hends => ?_⟩
  refine hplaced.stop_le_behind hs₁ (.refl _) ?_
  rw [hcloser]
  simpa [Part.endsInToken] using hends

theorem block (hbody : (Part.statements true).Lies last eof nodes
      (s.entered.advanced.opened .rightBrace false) s₁) (hclosing : s₁.kind = .rightBrace) :
    Part.block.Lies last eof [Node.branch .block (s.current.span.through s₁.current.span) nodes] s
      (s₁.closed.advanced.leaving s.depth) := by
  have hclosed : s.entered.Advances s₁.closed := State.Advances.bracket hbody.advances
  refine of_single (s.advances_entered.trans (hclosed.trans s₁.closed.advances_advanced)).leaving
    fun base hs hbase => ?_
  have hkind := State.kind_ne_of_eq hclosing (by simp)
  have hs₀ := hs.advances s.advances_entered
  have hopened := (hs₀.advances s.entered.advances_advanced).opened .rightBrace false
  have hle : s.place ≤ (s.entered.advanced.opened .rightBrace false).place := hs₀.place_le_advanced
  have hplace := Nat.le_trans hle (hopened.place_le hbody.advances)
  have hstop : s₁.closed.advanced.behind = s₁.current.span.stop.offset :=
    State.behind_advanced (s := s₁.closed) hkind
  refine ⟨Node.Placed.leaving ?_ _, fun _ => Nat.le_of_eq hstop.symm⟩
  exact Node.placed_closed (hopened.advances hbody.advances).closed hkind hbase hplace
    (fun n hn => (hbody.nodes s.place hopened hle n hn).1.closed) (hbody.inOrder hopened)

/-- A block that the file ends in: its node stops at the last token, and what is missing at its end stands
at the end of the file. -/
theorem openBlock (hbody : (Part.statements true).Lies last eof nodes
      (s.entered.advanced.opened .rightBrace false) s₁) (hopener : s.kind = .leftBrace)
    (hend : s₁.kind = .endOfFile) (d : Diagnostic) :
    Part.block.Lies last eof [Node.error (s₁.spanFrom s.current.span.start) nodes] s
      ((s₁.closed.reported d).leaving s.depth) := by
  have hclosed : s.entered.Advances s₁.closed := State.Advances.bracket hbody.advances
  refine of_single (s.advances_entered.trans (hclosed.trans (s₁.closed.advances_reported d))).leaving
    fun base hs hbase => ?_
  have hs₀ := hs.advances s.advances_entered
  have hopened := (hs₀.advances s.entered.advances_advanced).opened .rightBrace false
  have hs₁ := hopened.advances hbody.advances
  have hle : s.place ≤ (s.entered.advanced.opened .rightBrace false).place := hs₀.place_le_advanced
  have hrest := hs₁.rest_of_kind hend
  have hlast : s₁.behind = last := by
    rw [← hs₁.last, hrest]
    rfl
  have heof : s₁.place = eof := by
    rw [← hs₁.eof]
    simp [State.place, State.current, State.slot, hrest, Token.endOfFile, Span.empty]
  have hopening : s.current.span.stop.offset ≤ s₁.closed.behind :=
    hs₀.width_advanced (State.kind_ne_of_eq hopener (by simp)) hbody.advances.closed
  have hplaced : ∀ n ∈ nodes, n.Placed last eof s.place s₁ := fun n hn =>
    (hbody.nodes s.place hopened hle n hn).1
  refine ⟨⟨hbase, Nat.le_trans hs.place_le_stop hopening, .inl (Nat.le_refl _),
    Node.every_iff.mpr ⟨⟨fun n hn => ⟨(hplaced n hn).start, ?_⟩, fun n hn => (hplaced n hn).ordered,
      hbody.inOrder hopened⟩, fun n hn => (hplaced n hn).below⟩⟩, fun _ => Nat.le_refl _⟩
  rcases (hplaced n hn).stop with hinside | houtside
  · exact .inl hinside
  · exact .inr ⟨rfl, hlast, houtside.trans heof⟩

theorem structDecl (hmembers : (Part.members false).Lies last eof nodes
      (s.advanced.advanced.advanced.opened .rightBrace false) s₁)
    (hname : s.advanced.kind = .identifier) (hclosing : s₁.kind = .rightBrace) :
    (Part.form .structDecl).Lies last eof
      [Node.branch .structDecl (s.current.span.through s₁.current.span)
        (s.advanced.leaf .identifier :: nodes)] s s₁.closed.advanced := by
  have hclosed : s.advanced.advanced.Advances s₁.closed := State.Advances.bracket hmembers.advances
  refine of_single (s.advances_advanced_twice.trans (hclosed.trans s₁.closed.advances_advanced))
    fun base hs hbase => Node.Placed.lies ?_ rfl
  have hs₀ := hs.advances s.advances_advanced
  have hbrace := hs₀.advances s.advanced.advances_advanced
  have hopened := (hbrace.advances s.advanced.advanced.advances_advanced).opened .rightBrace false
  have hle := hs.place_le s.advances_advanced_twice
  have hle' : s.advanced.advanced.place ≤ s.advanced.advanced.advanced.place := hbrace.place_le_advanced
  have hplace := Nat.le_trans hle' (hopened.place_le hmembers.advances)
  obtain ⟨hleaf, -⟩ := Node.placed_leaf hs₀ (State.kind_ne_of_eq hname (by simp)) .identifier
  have hplaced : ∀ n ∈ nodes, n.Placed last eof s.advanced.advanced.place s₁ := fun n hn =>
    (hmembers.nodes s.advanced.advanced.place hopened hle' n hn).1
  refine Node.placed_closed (hopened.advances hmembers.advances).closed
    (State.kind_ne_of_eq hclosing (by simp)) hbase (Nat.le_trans hle hplace) ?_ ?_
  · refine List.forall_mem_cons.mpr ⟨?_, fun n hn => ((hplaced n hn).weaken hle).closed⟩
    exact (hleaf.weaken hs.place_le_advanced).advances hbrace hclosed
  · refine List.pairwise_cons.mpr ⟨fun n hn => ?_, hmembers.inOrder hopened⟩
    exact Nat.le_trans (hleaf.stop_le hbrace) (hplaced n hn).start

theorem subscript {next : BindingPower} {left index : Node}
    (hindex : (Part.expression .lowest).Lies last eof [index]
      (s.advanced.opened .rightBracket true).pastNewlines s₁)
    (hclosing : s₁.pastNewlines.kind = .rightBracket) :
    (Part.continuation next left .subscript).Lies last eof
      [Node.branch .subscript (left.span.through s₁.pastNewlines.current.span) [left, index]] s
      s₁.pastNewlines.advanced.closed := by
  have hclosed := (hindex.advances.trans (State.advances_pastNewlines_advanced _)).bracketLines
  refine of_single hclosed fun base hs hbase => Node.Placed.lies (Node.Placed.closed ?_) rfl
  have hleft : left.Placed last eof base s := hbase
  have hskip := (s.advanced.opened .rightBracket true).advances_pastNewlines
  have hopened := (hs.advances s.advances_advanced).opened .rightBracket true
  have hs₀ := hopened.advances hskip
  have hs₁ := hs₀.advances hindex.advances
  have hs₂ := hs₁.advances s₁.advances_pastNewlines
  have hle : s.place ≤ (s.advanced.opened .rightBracket true).pastNewlines.place :=
    Nat.le_trans hs.place_le_advanced (hopened.place_le hskip)
  have hbracket := Nat.le_trans hle (hs₀.place_le (hindex.advances.trans s₁.advances_pastNewlines))
  have hstop := hleft.stop_le hs
  have hstart := Nat.le_trans hleft.ordered hstop
  obtain ⟨hplaced, -⟩ := hindex.single hs₀ hle
  have hindexed := hplaced.advances hs₁ s₁.advances_pastNewlines
  have hlater : s.Advances s₁.pastNewlines.closed :=
    (hindex.advances.trans s₁.advances_pastNewlines).bracketLines
  have hkept := hleft.self.advances hs hlater
  have hinOrder : [left, index].Pairwise Node.Before :=
    List.pairwise_pair.mpr (Nat.le_trans hstop hplaced.start)
  refine Node.placed_closed hs₂ (State.kind_ne_of_eq hclosing (by simp)) hleft.start
    (Nat.le_trans hstart hbracket) ?_ hinOrder
  refine List.forall_mem_cons.mpr ⟨?_, List.forall_mem_singleton.mpr (hindexed.weaken hstart)⟩
  exact ⟨hkept.start, hkept.ordered, hkept.stop, hkept.below⟩

end Part.Lies

end

end ScriptSyntax
