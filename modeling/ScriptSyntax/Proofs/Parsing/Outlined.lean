import Mathlib.Data.List.TakeWhile
import ScriptSyntax.Proofs.Parsing.Errors
import ScriptSyntax.Proofs.Parsing.Outline
import ScriptSyntax.Proofs.Tree.Brackets

/-!
The outline of what a part of the grammar reads, `Reads.outlined`: its pairs of brackets are those of the nodes
that the part gives, and between two states the comments in lists of expressions are warned about, each once.
A source without errors has such an outline, `parse_outlined`.
-/

namespace ScriptSyntax

/-- Each comment ends its line. -/
def CommentsEndLines (slots : List Slot) : Prop :=
  ∀ slot ∈ slots, slot.commentBefore.isSome → slot.kind = .newline

namespace State

theorem rest_advanced_eq_tail (s : State) : s.advanced.rest = s.rest.tail := by
  cases hrest : s.rest with
  | nil => rw [advanced, hrest, hrest, List.tail_nil]
  | cons slot slots => rw [rest_advanced hrest, List.tail_cons]

/-- The innermost open bracket holds expressions. -/
def inList (s : State) : Bool := s.delimiters.head?.any (·.expressionList)

/-- Comments are warned about, and each ends its line. -/
def Watched (s : State) : Prop := s.options.warnComments = true ∧ CommentsEndLines s.rest

theorem Watched.advances {s s' : State} (h : s.Watched) (hadvances : s.Advances s') : s'.Watched := by
  obtain ⟨passed, hrest, -⟩ := hadvances.passes
  refine ⟨by rw [hadvances.options, h.1], fun slot hslot => h.2 slot ?_⟩
  rw [hrest]
  exact List.mem_append_right passed hslot

theorem Advances.inList {s s' : State} (h : s.Advances s') : s'.inList = s.inList := by
  rw [State.inList, h.delimiters, State.inList]

theorem reports_noted {s : State} (h : s.options.warnComments = true) (slot : Slot) :
    (s.noted slot).reports =
      (if s.inList then slot.commentBefore.toList.map commentWarning else []) ++ s.reports := by
  obtain ⟨token, comment⟩ := slot
  unfold noted
  cases comment with
  | none => simp
  | some span =>
      by_cases hlist : s.delimiters.head?.any (·.expressionList)
      · simp [h, inList, hlist, reported]
      · simp [inList, hlist]

theorem reports_advanced {s : State} (h : s.options.warnComments = true) {slot : Slot} {slots : List Slot}
    (hrest : s.rest = slot :: slots) :
    s.advanced.reports =
      (if s.inList then slot.commentBefore.toList.map commentWarning else []) ++ s.reports := by
  rw [← reports_noted h slot]
  unfold advanced
  rw [hrest]

theorem reports_advanced_of_kind {s : State} (h : s.Watched) (hkind : s.kind ≠ .newline) :
    s.advanced.reports = s.reports := by
  cases hrest : s.rest with
  | nil => rw [advanced, hrest]
  | cons slot slots =>
      have hcomment : slot.commentBefore = none := by
        rw [kind_of_cons hrest] at hkind
        rw [← Option.not_isSome_iff_eq_none]
        exact fun hsome => hkind (h.2 slot (hrest ▸ List.mem_cons_self) hsome)
      rw [reports_advanced h.1 hrest, hcomment]
      simp

end State

namespace Outline

/-- The tokens between two states have the outline, and the comments that it has in lists are warned about. -/
structure Covers (o : Outline) (s s' : State) : Prop where
  advances : s.Advances s'
  slots : s.rest = o.slots ++ s'.rest
  wellFormed : o.WellFormed
  reports : s.Watched →
    s'.reports = ((o.comments s.inList).map State.commentWarning).reverse ++ s.reports

namespace Covers

variable {o o' : Outline} {s t s' : State}

theorem refl (s : State) : nil.Covers s s := ⟨.refl s, rfl, trivial, fun _ => rfl⟩

theorem trans (h : o.Covers s t) (h' : o'.Covers t s') : (o ++ o').Covers s s' where
  advances := h.advances.trans h'.advances
  slots := by rw [h.slots, h'.slots, slots_append, List.append_assoc]
  wellFormed := (wellFormed_append o o').mpr ⟨h.wellFormed, h'.wellFormed⟩
  reports hs := by
    rw [h'.reports (hs.advances h.advances), h.reports hs, h.advances.inList, comments_append]
    simp

theorem leaving (h : o.Covers s.entered s') : o.Covers s (s'.leaving s.depth) :=
  ⟨(s.advances_entered.trans h.advances).leaving, h.slots, h.wellFormed, h.reports⟩

theorem begun (h : o.Covers s.begun s') : o.Covers s s' :=
  ⟨s.advances_begun.trans h.advances, h.slots, h.wellFormed, h.reports⟩

theorem advanced_of_cons {slot : Slot} {slots : List Slot} (hrest : s.rest = slot :: slots)
    (hbracket : slot.kind.isBracket = false) : (token slot nil).Covers s s.advanced := by
  refine ⟨s.advances_advanced, ?_, ⟨hbracket, trivial⟩, fun hs => ?_⟩
  · rw [State.rest_advanced hrest, hrest]
    rfl
  · rw [State.reports_advanced hs.1 hrest]
    simp only [Outline.comments, List.append_nil]
    cases s.inList <;> cases slot.commentBefore <;> rfl

theorem advanced (hbracket : s.kind.isBracket = false) (hend : s.kind ≠ .endOfFile) :
    (token s.slot nil).Covers s s.advanced := by
  obtain ⟨slot, slots, hrest⟩ := State.exists_rest_eq_cons hend
  have hslot : s.slot = slot := by rw [State.slot, hrest, List.headD_cons]
  rw [State.kind_of_cons hrest] at hbracket
  rw [hslot]
  exact advanced_of_cons hrest hbracket

theorem pastWhile {p : TokenKind → Bool} (hp : ∀ kind, p kind → kind.isBracket = false) (s : State) :
    (ofSlots (s.rest.takeWhile (p ·.kind))).Covers s (State.pastWhile p s.rest s) := by
  generalize hslots : s.rest = slots
  induction slots generalizing s with
  | nil => exact refl s
  | cons slot slots ih =>
      rw [State.pastWhile, List.takeWhile_cons]
      split
      · rename_i hkind
        exact (advanced_of_cons hslots (hp _ hkind)).trans (ih s.advanced (State.rest_advanced hslots))
      · exact refl s

theorem pastNewlines (s : State) :
    ∃ o : Outline, o.Covers s s.pastNewlines ∧ o.pairs = [] ∧
      ∃ count, o.surface = List.replicate count .newline := by
  have hnewline : ∀ kind : TokenKind, decide (kind = .newline) → kind.isBracket = false := by
    intro kind hkind
    rw [of_decide_eq_true hkind]
    rfl
  refine ⟨_, pastWhile hnewline s, pairs_ofSlots _, (s.rest.takeWhile (·.kind = .newline)).length, ?_⟩
  rw [surface_ofSlots, List.eq_replicate_iff, List.length_map]
  refine ⟨rfl, List.forall_mem_map.mpr fun slot hslot => ?_⟩
  exact of_decide_eq_true (List.mem_takeWhile_imp (p := fun slot : Slot => slot.kind = .newline) hslot)

theorem pastSeparators (s : State) :
    ∃ o : Outline, o.Covers s s.pastSeparators ∧ o.pairs = [] := by
  have hseparator : ∀ kind : TokenKind, kind.isSeparator → kind.isBracket = false := by
    intro kind hkind
    unfold TokenKind.isSeparator at hkind
    split at hkind
    · rfl
    · rfl
    · exact absurd hkind Bool.false_ne_true
  exact ⟨_, pastWhile hseparator s, pairs_ofSlots _⟩

section
variable {closer : TokenKind} {expressionList : Bool} {inside : Outline} {s₁ : State}
  (hopener : s.kind.closer? = some closer) (hinside : inside.Covers (s.advanced.opened closer expressionList) s₁)
  (hcloser : s₁.kind = closer)
  (hspaced : (⟨closer, expressionList⟩ : Delimiter).isList →
    Spaced (s.kind :: (inside.surface ++ [closer])))
include hopener hinside hcloser hspaced

/-- A pair of brackets is read up to its closing bracket, in whichever order that is consumed and the pair is
left. -/
theorem pair_of_rest {s' : State} (hadvances : s.Advances s') (hrest : s'.rest = s₁.rest.tail)
    (hreports : s₁.Watched → s'.reports = s₁.reports) :
    (pair ⟨closer, expressionList⟩ s.slot inside s₁.slot nil).Covers s s' := by
  obtain ⟨slot, slots, hslots⟩ := State.exists_rest_eq_cons (s := s) (by
    intro hend
    rw [hend] at hopener
    cases hopener)
  obtain ⟨slot₁, slots₁, hslots₁⟩ := State.exists_rest_eq_cons (s := s₁) (by
    intro hend
    rw [← hcloser, hend] at hopener
    exact absurd (TokenKind.isCloser_of_closer? hopener).1 Bool.false_ne_true)
  have hslot : s.slot = slot := by rw [State.slot, hslots, List.headD_cons]
  have hslot₁ : s₁.slot = slot₁ := by rw [State.slot, hslots₁, List.headD_cons]
  have hkind : s.slot.kind = s.kind := rfl
  have hkind₁ : s₁.slot.kind = closer := hcloser
  refine ⟨hadvances, ?_, ?_, fun hs => ?_⟩
  · have hinner : s.advanced.rest = inside.slots ++ s₁.rest := hinside.slots
    rw [State.rest_advanced hslots, hslots₁] at hinner
    rw [hslots, hinner, hrest, hslots₁, hslot, hslot₁]
    simp [Outline.slots]
  · refine ⟨?_, ?_, ?_, hinside.wellFormed, trivial⟩
    · rw [hkind, hkind₁, hopener]
    · exact hkind₁.symm
    · rw [hkind₁, hkind]
      exact hspaced
  · have hadvanced : s.advanced.Watched := hs.advances s.advances_advanced
    have hopened : (s.advanced.opened closer expressionList).Watched := ⟨hadvanced.1, hadvanced.2⟩
    have hnewline : s.kind ≠ .newline := by
      intro hnewline
      rw [hnewline] at hopener
      cases hopener
    rw [hreports (hopened.advances hinside.advances), hinside.reports hopened]
    show _ ++ s.advanced.reports = _
    rw [State.reports_advanced_of_kind hs hnewline]
    simp [Outline.comments, State.inList, State.opened]

theorem list : (pair ⟨closer, expressionList⟩ s.slot inside s₁.slot nil).Covers s s₁.advanced.closed := by
  have hnewline : s₁.kind ≠ .newline := by
    intro hnewline
    rw [← hcloser, hnewline] at hopener
    exact absurd (TokenKind.isCloser_of_closer? hopener).1 Bool.false_ne_true
  refine pair_of_rest hopener hinside hcloser hspaced
    (hinside.advances.trans s₁.advances_advanced).bracket s₁.rest_advanced_eq_tail fun hs₁ => ?_
  exact State.reports_advanced_of_kind hs₁ hnewline

theorem block : (pair ⟨closer, expressionList⟩ s.slot inside s₁.slot nil).Covers s s₁.closed.advanced := by
  have hnewline : s₁.closed.kind ≠ .newline := by
    intro hnewline
    rw [← hcloser, show s₁.kind = .newline from hnewline] at hopener
    exact absurd (TokenKind.isCloser_of_closer? hopener).1 Bool.false_ne_true
  have hclosed : s.Advances s₁.closed := State.Advances.bracket hinside.advances
  refine pair_of_rest hopener hinside hcloser hspaced (hclosed.trans s₁.closed.advances_advanced)
    s₁.closed.rest_advanced_eq_tail fun hs₁ => ?_
  exact State.reports_advanced_of_kind ⟨hs₁.1, hs₁.2⟩ hnewline

end

end Covers

end Outline

namespace Outline

/-- The pairs of brackets as a tree knows them. -/
def brackets (o : Outline) : List (Delimiter × Option Position) :=
  o.pairs.map fun pair => Node.bracket pair.1 pair.2.token.span.stop

@[simp] theorem brackets_nil : nil.brackets = [] := rfl

@[simp] theorem brackets_token (slot : Slot) (rest : Outline) :
    (token slot rest).brackets = rest.brackets := rfl

@[simp] theorem brackets_pair (delimiter : Delimiter) (opener closer : Slot) (inside rest : Outline) :
    (pair delimiter opener inside closer rest).brackets =
      inside.brackets ++ Node.bracket delimiter closer.token.span.stop :: rest.brackets := by
  simp [brackets, pairs]

theorem map_fst_brackets (o : Outline) : o.brackets.map (·.1) = o.pairs.map (·.1) := by
  rw [brackets, List.map_map]
  rfl

theorem brackets_of_pairs {o : Outline} (h : o.pairs = []) : o.brackets = [] := by
  rw [brackets, h, List.map_nil]

@[simp] theorem brackets_append (o o' : Outline) : (o ++ o').brackets = o.brackets ++ o'.brackets := by
  simp [brackets]

end Outline

namespace Part

/-- The brackets of a list belong together. -/
def Paired : Part → Prop
  | .list opener closer _ _ => opener.closer? = some closer
  | _ => True

theorem bracket_closed {opener closer : TokenKind} (h : opener.closer? = some closer) {s : State}
    (hcloser : s.kind = closer) (expressionList : Bool) :
    Node.bracket ⟨closer, expressionList⟩ s.advanced.closed.previousEnd =
      Node.bracket ⟨closer, expressionList⟩ s.slot.token.span.stop := by
  have hend : s.kind ≠ .endOfFile := by
    intro hend
    rw [← hcloser, hend] at h
    exact absurd (TokenKind.isCloser_of_closer? h).1 Bool.false_ne_true
  exact congrArg (Node.bracket _) (Parser.previousEnd_advanced hend)

end Part

@[simp] theorem Item.paired_part (item : Item) : item.part.Paired := by
  cases item <;> trivial

theorem State.paired_statementPart (s : State) : s.statementPart.Paired := by
  unfold State.statementPart
  repeat' split
  all_goals trivial

namespace TokenKind

variable {kind : TokenKind}

/-- A token of the kind may stand anywhere in a list. -/
def isPlain (kind : TokenKind) : Bool :=
  !kind.isBracket && kind ≠ .endOfFile && kind ≠ .newline && kind ≠ .colon

/-- A line of a list neither begins nor ends with a token of the kind. -/
def isInner (kind : TokenKind) : Bool :=
  !kind.breaksBefore && !kind.breaksBehind && kind ≠ .endOfFile

theorem isPlain_iff :
    kind.isPlain ↔ kind.isBracket = false ∧ kind ≠ .endOfFile ∧ kind ≠ .newline ∧ kind ≠ .colon := by
  simp [isPlain, and_assoc]

theorem isInner_iff :
    kind.isInner ↔ kind.breaksBefore = false ∧ kind.breaksBehind = false ∧ kind ≠ .endOfFile := by
  simp [isInner, and_assoc]

/-- Lines of a list begin and end at its brackets and colons. -/
theorem isPlain_of_isInner (h : kind.isInner) : kind.isPlain := by
  cases kind <;> first | rfl | cases h

theorem isInner_of_literalKind? {node : NodeKind} (h : Parser.literalKind? kind = some node) : kind.isInner := by
  unfold Parser.literalKind? at h
  split at h <;> first | rfl | cases h

theorem isInner_of_assignmentKind? {node : NodeKind} (h : Parser.assignmentKind? kind = some node) :
    kind.isInner := by
  unfold Parser.assignmentKind? at h
  split at h <;> first | rfl | cases h

/-- A sigil and a prefix operator are followed by the name or the operand on the same line. -/
theorem isInner_of_operandForm? {form : OperandForm} (h : kind.operandForm? = some form)
    (hform : form = .macroCall ∨ form = .bang) : kind.isInner := by
  unfold operandForm? at h
  split at h <;> cases h <;> first | rfl | simp at hform

theorem isPlain_of_operatorForm? {operator : BindingPower × OperatorForm}
    (h : kind.operatorForm? = some operator) (hform : operator.2 ≠ .subscript) :
    kind.isPlain ∧ kind.breaksBehind := by
  unfold operatorForm? at h
  split at h <;> cases h <;> first | exact ⟨rfl, rfl⟩ | exact absurd rfl hform

end TokenKind

namespace Outline

variable {s : State} {kind : TokenKind}

theorem Covers.plain (hkind : s.kind = kind) (hplain : kind.isPlain) :
    (token s.slot nil).Covers s s.advanced := by
  obtain ⟨hbracket, hend, -⟩ := TokenKind.isPlain_iff.mp (hkind ▸ hplain)
  exact advanced hbracket hend

end Outline

namespace State

/-- The tokens between two states have an outline with the pairs of brackets, which is spaced as a list is
where it stands in one. -/
def Draws (s : State) (spaced : Bool) (brackets : List (Delimiter × Option Position)) (s' : State) : Prop :=
  ∃ o : Outline, o.Covers s s' ∧ o.brackets = brackets ∧ (spaced → Spaced o.surface)

/-- The tokens between two states stand in a list, in front of a comma or of the bracket that closes it. -/
def Closes (s : State) (brackets : List (Delimiter × Option Position)) (s' : State) : Prop :=
  ∃ o : Outline, o.Covers s s' ∧ o.brackets = brackets ∧
    ∀ kind : TokenKind, kind.breaksBefore → kind ≠ .newline → Spaced (o.surface ++ [kind])

theorem Closes.nil (s : State) : s.Closes [] s := by
  refine ⟨.nil, .refl s, rfl, fun kind hbefore hnewline => .singleton hnewline ?_⟩
  rintro rfl
  cases hbefore

theorem Closes.of_eq {brackets brackets' : List (Delimiter × Option Position)} {s s' : State}
    (h : s.Closes brackets s') (heq : brackets' = brackets) : s.Closes brackets' s' :=
  heq ▸ h

namespace Draws

variable {spaced : Bool} {brackets brackets' : List (Delimiter × Option Position)} {kind : TokenKind}
  {s t s₁ s₂ s' : State}

theorem nil (s : State) : s.Draws spaced [] s :=
  ⟨.nil, .refl s, rfl, fun _ => .nil⟩

theorem of_eq (h : s.Draws spaced brackets s') (heq : brackets' = brackets) :
    s.Draws spaced brackets' s' :=
  heq ▸ h

theorem loose (h : s.Draws true brackets s') : s.Draws spaced brackets s' := by
  obtain ⟨o, ho, hbrackets, hspaced⟩ := h
  exact ⟨o, ho, hbrackets, fun _ => hspaced rfl⟩

theorem append (h : s.Draws spaced brackets t) (h' : t.Draws spaced brackets' s') :
    s.Draws spaced (brackets ++ brackets') s' := by
  obtain ⟨o, ho, hbrackets, hspaced⟩ := h
  obtain ⟨o', ho', hbrackets', hspaced'⟩ := h'
  refine ⟨o ++ o', ho.trans ho', by simp [hbrackets, hbrackets'], fun h => ?_⟩
  rw [Outline.surface_append]
  exact (hspaced h).append (hspaced' h)

theorem token (hkind : s.kind = kind) (hplain : kind.isPlain) : s.Draws spaced [] s.advanced := by
  obtain ⟨hbracket, hend, hnewline, hcolon⟩ := TokenKind.isPlain_iff.mp (hkind ▸ hplain)
  exact ⟨_, .advanced hbracket hend, rfl, fun _ => .singleton hnewline hcolon⟩

theorem colon (hkind : s.kind = .colon) : s.Draws false [] s.advanced :=
  ⟨_, .advanced (by rw [hkind]; rfl) (kind_ne_of_eq hkind nofun), rfl, by simp⟩

theorem newlines (s : State) : s.Draws false [] s.pastNewlines := by
  obtain ⟨o, ho, hnone, -⟩ := Outline.Covers.pastNewlines s
  exact ⟨o, ho, Outline.brackets_of_pairs hnone, by simp⟩

theorem separators (s : State) : s.Draws false [] s.pastSeparators := by
  obtain ⟨o, ho, hnone⟩ := Outline.Covers.pastSeparators s
  exact ⟨o, ho, Outline.brackets_of_pairs hnone, by simp⟩

theorem leaving (h : s.entered.Draws spaced brackets s') :
    s.Draws spaced brackets (s'.leaving s.depth) := by
  obtain ⟨o, ho, hdrawn⟩ := h
  exact ⟨o, ho.leaving, hdrawn⟩

theorem begun (h : s.begun.Draws spaced brackets s') : s.Draws spaced brackets s' := by
  obtain ⟨o, ho, hdrawn⟩ := h
  exact ⟨o, ho.begun, hdrawn⟩

theorem toEntered (h : t.Draws spaced brackets s) : t.Draws spaced brackets s.entered := by
  obtain ⟨o, ho, hdrawn⟩ := h
  exact ⟨o, ⟨ho.advances.trans s.advances_entered, ho.slots, ho.wellFormed, ho.reports⟩, hdrawn⟩

theorem exists_behind (hplain : s.kind.isPlain) (hbreaks : s.kind.breaksBehind)
    (h : s.advanced.pastNewlines.Draws true brackets s') :
    ∃ o : Outline, (Outline.token s.slot o).Covers s s' ∧ o.brackets = brackets ∧
      Spaced (s.kind :: o.surface) := by
  obtain ⟨o, ho, hnone, count, hlines⟩ := Outline.Covers.pastNewlines s.advanced
  obtain ⟨o', ho', hbrackets, hspaced⟩ := h
  obtain ⟨hbracket, hend, hnewline, hcolon⟩ := TokenKind.isPlain_iff.mp hplain
  refine ⟨o ++ o', (Outline.Covers.advanced hbracket hend).trans (ho.trans ho'), ?_, ?_⟩
  · simpa [Outline.brackets_of_pairs hnone] using hbrackets
  · rw [Outline.surface_append, hlines]
    exact .behind_newlines hbreaks count (.token hnewline hcolon (hspaced rfl))

theorem operator (hplain : s.kind.isPlain) (hbreaks : s.kind.breaksBehind)
    (h : s.advanced.pastNewlines.Draws true brackets s') : s.Draws true brackets s' := by
  obtain ⟨o, ho, hbrackets, hspaced⟩ := exists_behind hplain hbreaks h
  exact ⟨_, ho, hbrackets, fun _ => hspaced⟩

theorem key (hkind : s.kind = .string) (hcolon : s.advanced.kind = .colon)
    (h : s.advanced.advanced.pastNewlines.Draws true brackets s') : s.Draws true brackets s' := by
  obtain ⟨o, ho, hnone, count, hlines⟩ := Outline.Covers.pastNewlines s.advanced.advanced
  obtain ⟨o', ho', hbrackets, hspaced⟩ := h
  have hcovers : (Outline.token s.advanced.slot .nil).Covers s.advanced s.advanced.advanced :=
    .advanced (by rw [hcolon]; rfl) (kind_ne_of_eq hcolon nofun)
  refine ⟨_, (Outline.Covers.plain hkind rfl).trans (hcovers.trans (ho.trans ho')), ?_, fun _ => ?_⟩
  · simpa [Outline.brackets_of_pairs hnone] using hbrackets
  · show Spaced (s.kind :: s.advanced.kind :: (o ++ o').surface)
    rw [hkind, hcolon, Outline.surface_append, hlines]
    exact .key_newlines count (hspaced rfl)

theorem closes (h : s.Draws true brackets s₁) : s.Closes brackets s₁.pastNewlines := by
  obtain ⟨o, ho, hnone, count, hlines⟩ := Outline.Covers.pastNewlines s₁
  obtain ⟨o', ho', hbrackets, hspaced⟩ := h
  refine ⟨_, ho'.trans ho, by simp [Outline.brackets_of_pairs hnone, hbrackets],
    fun kind hbefore hnewline => ?_⟩
  rw [Outline.surface_append, hlines, List.append_assoc]
  refine (hspaced rfl).append (.before_newlines hbefore count (.singleton hnewline ?_))
  rintro rfl
  cases hbefore

theorem comma (h : s.Draws true brackets s₁) (hkind : s₁.pastNewlines.kind = .comma)
    (hnext : s₁.pastNewlines.advanced.pastNewlines.Draws true brackets' s₂) :
    s.Draws true (brackets ++ brackets') s₂ := by
  obtain ⟨o, ho, hnone, count, hlines⟩ := Outline.Covers.pastNewlines s₁
  obtain ⟨o₁, ho₁, hbrackets₁, hspaced₁⟩ := h
  obtain ⟨o₂, ho₂, hbrackets₂, hspaced₂⟩ :=
    exists_behind (hkind ▸ rfl : s₁.pastNewlines.kind.isPlain) (hkind ▸ rfl) hnext
  refine ⟨_, ho₁.trans (ho.trans ho₂), ?_, fun _ => ?_⟩
  · simp [Outline.brackets_of_pairs hnone, hbrackets₁, hbrackets₂]
  · rw [Outline.surface_append, Outline.surface_append, hlines]
    rw [hkind] at hspaced₂
    show Spaced (_ ++ (_ ++ State.kind _ :: _))
    rw [hkind]
    exact (hspaced₁ rfl).append (.before_newlines rfl count hspaced₂)

theorem list {opener closer : TokenKind} {expressionList : Bool} (hpair : opener.closer? = some closer)
    (hopener : s.kind = opener)
    (hinside : (s.advanced.opened closer expressionList).pastNewlines.Closes brackets s₁)
    (hcloser : s₁.kind = closer) :
    s.Draws true (brackets ++ [Node.bracket ⟨closer, expressionList⟩ s₁.advanced.closed.previousEnd])
      s₁.advanced.closed := by
  obtain ⟨o, ho, hnone, count, hlines⟩ :=
    Outline.Covers.pastNewlines (s.advanced.opened closer expressionList)
  obtain ⟨o', ho', hbrackets, hcloses⟩ := hinside
  subst hopener
  refine ⟨_, .list hpair (ho.trans ho') hcloser fun _ => ?_, ?_, fun _ => ?_⟩
  · obtain ⟨hbefore, hnewline⟩ := TokenKind.breaksBefore_of_closer? hpair
    rw [Outline.surface_append, hlines, List.append_assoc]
    exact .list hpair count (hcloses closer hbefore hnewline)
  · simp [Outline.brackets_of_pairs hnone, hbrackets, Part.bracket_closed hpair hcloser]
  · show Spaced [s.kind, s₁.kind]
    rw [hcloser]
    exact .brackets hpair

theorem block (hopener : s.kind = .leftBrace)
    (hinside : (s.advanced.opened .rightBrace false).Draws false brackets s₁)
    (hcloser : s₁.kind = .rightBrace) (stop : Position) :
    s.Draws true (brackets ++ [Node.bracket ⟨.rightBrace, false⟩ stop]) s₁.closed.advanced := by
  obtain ⟨o, ho, hbrackets, -⟩ := hinside
  have hpair : s.kind.closer? = some .rightBrace := hopener ▸ rfl
  refine ⟨_, .block hpair ho hcloser nofun, by simp [hbrackets, Node.bracket], fun _ => ?_⟩
  show Spaced [s.kind, s₁.kind]
  rw [hcloser]
  exact .brackets hpair

end Draws

end State

@[simp] theorem brackets_branch (kind : NodeKind) (span : Span) (children : List Node) :
    (Node.branch kind span children).brackets =
      Node.bracketsList children ++
        ((Node.ownDelimiter? kind children).map (Node.bracket · span.stop)).toList :=
  Node.brackets_mk kind children span none

@[simp] theorem brackets_identifier (s : State) : (s.leaf .identifier).brackets = [] := rfl

@[simp] theorem brackets_stringLit (s : State) : (s.leaf .stringLit).brackets = [] := rfl

/-- The tokens of a part have an outline with the pairs of brackets of its nodes, which is spaced like a list
if the part can stand in one.  A path has no brackets. -/
def Part.Outlined (part : Part) (nodes : List Node) (s s' : State) : Prop :=
  let brackets := Node.bracketsList nodes
  match part with
  | climb _ left | continuation _ left _ =>
      ∀ t : State, t.Draws true left.brackets s → t.Draws true brackets s'
  | list opener closer expressionList _ =>
      opener.closer? = some closer →
        s.Draws true (brackets ++ [Node.bracket ⟨closer, expressionList⟩ s'.previousEnd]) s'
  | more _ =>
      ∀ (t s₀ : State) (before : List (Delimiter × Option Position)), s₀.pastNewlines = s →
        t.Draws true before s₀ → t.Closes (before ++ brackets) s'
  | path | segments | moreSegments => brackets = [] ∧ s.Draws false [] s'
  | expression _ | operand _ | name | entry | parameters | block => s.Draws true brackets s'
  | _ => s.Draws false brackets s'

variable {part : Part} {nodes : List Node} {s s' : State}

theorem Item.draws {item : Item} {n : Node} (h : item.part.Outlined [n] s s') :
    s.Draws true n.brackets s' := by
  cases item <;> exact State.Draws.of_eq h (by simp)

theorem State.draws_statementPart {n : Node} {t : State} (h : t.statementPart.Outlined [n] s s') :
    s.Draws false n.brackets s' := by
  unfold State.statementPart at h
  split at h
  · exact State.Draws.of_eq h (by simp)
  · split at h <;> exact State.Draws.of_eq h (by simp)

theorem FunctionWords.draws {isAsync spaced : Bool} (h : FunctionWords s isAsync s') :
    s.Draws spaced [] s' := by
  cases h with
  | plain hfn => exact .token hfn rfl
  | asyncFirst hasync hfn => exact (State.Draws.token hasync rfl).append (.token hfn rfl)
  | asyncLast hfn hasync => exact (State.Draws.token hfn rfl).append (.token hasync rfl)

/-- What a part reads has an outline with the pairs of brackets of its nodes. -/
theorem Reads.outlined (h : Reads true part nodes s s') : part.Outlined nodes s s' := by
  induction h with
  | gap _ _ _ herror | lexicalError _ herror | openBlock _ _ _ _ herror | joined _ _ _ _ herror
  | broken _ _ _ herror | misassign _ _ _ _ herror | lateField _ herror
  | unknownPath _ _ _ _ herror | lateClause _ _ _ herror => cases herror
  | @expression power form left node s s₁ s₂ _ _ _ _ ihleft ihclimb =>
      have hleft : s.entered.Draws true left.brackets s₁ := ihleft.of_eq (by simp)
      exact (ihclimb _ hleft).leaving
  | climbStop => exact fun _ hleft => hleft.of_eq (by simp)
  | climbFold _ _ _ _ ihfolded ihclimb =>
      -- an operator is drawn with the operand before it, from wherever that operand begins
      intro t hleft
      exact ihclimb t ((ihfolded t hleft.toEntered).of_eq (by simp))
  | literal hkind =>
      have hplain := TokenKind.isPlain_of_isInner (TokenKind.isInner_of_literalKind? hkind)
      refine (State.Draws.token rfl hplain).of_eq ?_
      obtain ⟨-, rfl⟩ | ⟨-, rfl⟩ | ⟨-, rfl⟩ := Parser.literalKind?_cases hkind <;> rfl
  | name hkind | identifier hkind => exact .token hkind rfl
  | call hkind _ ih =>
      refine ((State.Draws.token hkind rfl).append (ih rfl)).of_eq ?_
      simp [Node.ownDelimiter?, NodeKind.delimiter?, State.spanFrom]
  | array _ ih | object _ ih | parameters _ ih =>
      exact (ih rfl).of_eq (by simp [Node.ownDelimiter?, NodeKind.delimiter?, State.spanFrom])
  | lambda hkind _ _ ihparameters ihbody =>
      refine ((State.Draws.token hkind rfl).append (ihparameters.append ihbody)).of_eq ?_
      simp [Node.ownDelimiter?, NodeKind.delimiter?]
  | macroCall hsigil hname _ ih =>
      have hplain := TokenKind.isPlain_of_isInner (TokenKind.isInner_of_operandForm? hsigil (.inl rfl))
      have hnamed := (State.Draws.token hname rfl).append (ih rfl)
      refine ((State.Draws.token rfl hplain).append hnamed).of_eq ?_
      simp [Node.ownDelimiter?, NodeKind.delimiter?, State.spanFrom]
  | awaitExpr hkind _ ih =>
      exact ((State.Draws.token hkind rfl).append ih).of_eq (by simp [Node.ownDelimiter?, NodeKind.delimiter?])
  | bang hkind _ ih =>
      have hplain := TokenKind.isPlain_of_isInner (TokenKind.isInner_of_operandForm? hkind (.inr rfl))
      exact ((State.Draws.token rfl hplain).append ih).of_eq (by simp [Node.ownDelimiter?, NodeKind.delimiter?])
  | @operation next left right form s s' hform hkind _ ih =>
      intro t hleft
      obtain ⟨hplain, hbreaks⟩ := TokenKind.isPlain_of_operatorForm? hkind hform
      refine (hleft.append (.operator hplain hbreaks ih)).of_eq ?_
      cases form with
      | subscript => exact absurd rfl hform
      | _ => simp [Node.ownDelimiter?, NodeKind.delimiter?, OperatorForm.nodeKind]
  | @subscript next left index s s₁ hkind _ hclosing ih =>
      intro t hleft
      refine (hleft.append (.list rfl hkind (State.Draws.closes ih) hclosing)).of_eq ?_
      have hpair : TokenKind.leftBracket.closer? = some .rightBracket := rfl
      simp [Node.ownDelimiter?, NodeKind.delimiter?, Part.bracket_closed hpair hclosing, Span.through,
        State.current]
  | entry hkind hcolon _ ih =>
      exact (State.Draws.key hkind hcolon ih).of_eq (by simp [Node.ownDelimiter?, NodeKind.delimiter?])
  | emptyList hopener hcloser => exact fun hpair => .list hpair hopener (.nil _) hcloser
  | items hopener _ _ hcloser ihfirst ihrest =>
      intro hpair
      exact .list hpair hopener (ihrest _ _ _ rfl (Item.draws ihfirst)) hcloser
  | noMore =>
      rintro t s₀ before rfl hbefore
      exact hbefore.closes.of_eq (by simp)
  | more hkind _ _ ihnext ihrest =>
      rintro t s₀ before rfl hbefore
      exact (ihrest _ _ _ rfl (hbefore.comma hkind (Item.draws ihnext))).of_eq (by simp)
  | @block body s s₁ _ hopener _ hclosing ih =>
      have hentered : s.entered.kind = .leftBrace := hopener
      have hbraces := State.Draws.block hentered ih hclosing s₁.current.span.stop
      exact hbraces.leaving.of_eq (by simp [Node.ownDelimiter?, NodeKind.delimiter?, Span.through])
  | noStatements | noMembers => exact .separators _
  | whole _ _ _ _ ihnode ihrest | members _ _ _ ihnode ihrest =>
      exact ((State.Draws.separators _).append (ihnode.append ihrest)).of_eq (by simp)
  | statement _ ih => exact (State.draws_statementPart ih).begun.of_eq (by simp)
  | bare _ _ ih => exact ih.loose.of_eq (by simp [Node.ownDelimiter?, NodeKind.delimiter?])
  | method _ _ ih | earlyField _ ih => exact ih
  | assign _ hkind _ _ ihtarget ihvalue =>
      have hplain := TokenKind.isPlain_of_isInner (TokenKind.isInner_of_assignmentKind? hkind)
      refine (ihtarget.append ((State.Draws.token rfl hplain).append ihvalue)).loose.of_eq ?_
      obtain ⟨-, rfl⟩ | ⟨-, rfl⟩ | ⟨-, rfl⟩ := Parser.assignmentKind?_cases hkind
      all_goals simp [Node.ownDelimiter?, NodeKind.delimiter?]
  | functionDecl hwords hname _ _ ihparameters ihbody =>
      have hnamed := (State.Draws.token hname rfl).append (ihparameters.append ihbody)
      exact (hwords.draws.append hnamed).loose.of_eq (by simp [Node.ownDelimiter?, NodeKind.delimiter?])
  | macroDecl hkind hname _ _ ihparameters ihbody =>
      have hnamed := (State.Draws.token hname rfl).append (ihparameters.append ihbody)
      refine ((State.Draws.token hkind rfl).append hnamed).loose.of_eq ?_
      simp [Node.ownDelimiter?, NodeKind.delimiter?]
  | @structDecl members s s₁ hkind hname hopener _ hclosing ih =>
      have hnamed := (State.Draws.token hname rfl).append
        (.block hopener ih hclosing s₁.current.span.stop)
      refine ((State.Draws.token hkind rfl).append hnamed).loose.of_eq ?_
      simp [Node.ownDelimiter?, NodeKind.delimiter?, Span.through]
  | field hkind hassign _ ih =>
      have hvalue := (State.Draws.token hassign rfl).append ih
      refine ((State.Draws.token hkind rfl).append hvalue).loose.of_eq ?_
      simp [Node.ownDelimiter?, NodeKind.delimiter?]
  | importPath hkind hpath _ ih =>
      obtain ⟨hnone, hdrawn⟩ := ih
      refine ((State.Draws.token hkind rfl).append hdrawn).of_eq ?_
      simpa [Node.ownDelimiter?, NodeKind.delimiter?, hpath.kind_of_path] using hnone
  | importAs hkind hpath has hname ih =>
      obtain ⟨hnone, hdrawn⟩ := ih
      have halias := (hdrawn.append (.token has rfl)).append (.token hname rfl)
      refine ((State.Draws.token hkind rfl).append halias).of_eq ?_
      simpa [Node.ownDelimiter?, NodeKind.delimiter?, hpath.kind_of_path] using hnone
  | importNames hkind hnames hsome hfrom _ ihnames ihpath =>
      obtain ⟨hnone, hdrawn⟩ := ihpath
      obtain ⟨first, rest, rfl, hfirst⟩ := hnames.kind_of_names hsome
      have hfromPath := (State.Draws.token hfrom rfl).append hdrawn
      refine ((State.Draws.token hkind rfl).append ((ihnames rfl).loose.append hfromPath)).of_eq ?_
      simp at hnone
      simp [Node.ownDelimiter?, hfirst, hnone, Node.bracket]
  | knownPath hkind hcolon _ _ ih =>
      obtain ⟨hnone, hdrawn⟩ := ih
      refine ⟨by simpa [Node.ownDelimiter?, NodeKind.delimiter?] using hnone, ?_⟩
      exact (State.Draws.token hkind rfl).append ((State.Draws.colon hcolon).append hdrawn)
  | address hkind => exact ⟨rfl, .token hkind rfl⟩
  | segments hkind _ ih =>
      obtain ⟨hnone, hdrawn⟩ := ih
      refine ⟨by simpa [Node.ownDelimiter?, NodeKind.delimiter?] using hnone, ?_⟩
      exact (State.Draws.token hkind rfl).append hdrawn
  | noMoreSegments => exact ⟨rfl, .nil _⟩
  | moreSegments hkind hname _ ih =>
      obtain ⟨hnone, hdrawn⟩ := ih
      refine ⟨by simpa [Node.ownDelimiter?, NodeKind.delimiter?] using hnone, ?_⟩
      exact (State.Draws.token hkind rfl).append ((State.Draws.token hname rfl).append hdrawn)
  | forStmt hkind _ _ ihcondition ihbody | elifClause hkind _ _ ihcondition ihbody =>
      refine ((State.Draws.token hkind rfl).append (ihcondition.append ihbody)).loose.of_eq ?_
      simp [Node.ownDelimiter?, NodeKind.delimiter?]
  | ifStmt hkind _ _ _ ihcondition ihbody ihclauses =>
      have hclauses := (ihcondition.append ihbody).loose.append ihclauses
      refine ((State.Draws.token hkind rfl).append hclauses).of_eq ?_
      simp [Node.ownDelimiter?, NodeKind.delimiter?]
  | noClauses => exact .nil _
  | clauses _ _ _ ihnode ihrest =>
      exact ((State.Draws.newlines _).append (ihnode.append ihrest)).of_eq (by simp)
  | elseClause hkind _ ih | returnStmt hkind _ _ ih =>
      refine ((State.Draws.token hkind rfl).append ih).loose.of_eq ?_
      simp [Node.ownDelimiter?, NodeKind.delimiter?]
  | bareReturn hkind => exact .token hkind rfl

theorem parse_outlined {source : String} {options : Options}
    (hclean : (parse source options).hasErrors = false) :
    ∃ (o : Outline) (s : State), (parse source options).diagnostics = s.diagnostics ∧
      o.Covers (State.ofSource source options) s ∧
      o.slots = Slot.significant none (Scan.lexemes Position.origin source.toList) ∧
      (parse source options).root.brackets = o.brackets := by
  obtain ⟨body, s, hroot, hdiagnostics, hreads, hrest⟩ := parse_reads source options
  have hquiet : (State.ofSource source options).Quiet s :=
    Nat.le_of_eq (ParseResult.errorCount_eq_zero hdiagnostics hclean)
  obtain ⟨o, ho, hbrackets, -⟩ := (hreads.of_quiet hquiet).outlined
  refine ⟨o, s, hdiagnostics, ho, ?_, ?_⟩
  · rw [← rest_ofSource source options, ho.slots, hrest, List.append_nil]
  · rw [hroot, hbrackets]
    simp [Node.branch, Node.ownDelimiter?, NodeKind.delimiter?]

end ScriptSyntax
