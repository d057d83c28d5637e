import ScriptSyntax.Proofs.Parsing.Accepts
import ScriptSyntax.Proofs.Parsing.Outlined
import ScriptSyntax.Proofs.Parsing.Wrap

/-!
A line break where a list may be broken changes nothing: whatever the grammar reads without an error, it reads
from the tokens with one such line break more, and the nodes are the same up to their places, `Reads.wrapped`.
-/

namespace ScriptSyntax

namespace TokenKind

variable {kind : TokenKind}

theorem breaksBefore_of_operandForm? {form : OperandForm} (h : kind.operandForm? = some form) :
    kind.breaksBefore = false := by
  unfold operandForm? at h
  split at h <;> first | rfl | cases h

theorem breaksBefore_of_operatorForm? {operator : BindingPower × OperatorForm}
    (h : kind.operatorForm? = some operator) : kind.breaksBefore = false := by
  unfold operatorForm? at h
  split at h <;> first | rfl | cases h

theorem breaksBefore_of_statementForm? {form : StatementForm} (h : kind.statementForm? = some form) :
    kind.breaksBefore = false := by
  unfold statementForm? at h
  split at h <;> first | rfl | cases h

theorem breaksBefore_of_opener {closer : TokenKind} (h : kind.closer? = some closer) :
    kind.breaksBefore = false := by
  unfold closer? at h
  split at h <;> first | rfl | cases h

end TokenKind

namespace State

variable {s t : State}

section
variable {kind : TokenKind}

theorem Wraps.passes (h : s.Wraps .shut t) (hkind : s.kind = kind) (hinner : kind.isInner) :
    t.kind = kind ∧ t.current.text = s.current.text ∧ s.advanced.Wraps .shut t.advanced := by
  obtain ⟨hbefore, hbehind, -⟩ := TokenKind.isInner_iff.mp hinner
  obtain ⟨hsame, htext, hnext⟩ := h.takes hkind hbefore nofun
  exact ⟨hsame, htext, hnext.mono (Edge.past_le .shut hbehind)⟩

theorem Meets.closes (h : s.Meets t) {opener : TokenKind} (hopener : opener.closer? = some kind)
    (hkind : s.kind = kind) : t.kind = kind ∧ s.advanced.closed.Wraps .shut t.advanced.closed := by
  obtain ⟨hsame, hnext⟩ := h.advanced hkind (TokenKind.breaksBefore_of_closer? hopener).2
  rw [Edge.past_closer hopener] at hnext
  exact ⟨hsame, hnext.closed⟩

end

theorem Wraps.kind (h : s.Wraps .shut t) (hbreaks : s.kind.breaksBefore = false) : t.kind = s.kind :=
  (kind_eq_of_word (h.word nofun hbreaks)).1

theorem Wraps.pending_eq_none (h : s.Wraps .shut t) {power : BindingPower}
    (hpending : s.pending power = none) : t.pending power = none := by
  unfold pending at hpending ⊢
  rcases h.kind_or nofun with hkind | hkind
  · rw [hkind, hpending]
  · rw [hkind]
    rfl

theorem Wraps.pending_eq_some (h : s.Wraps .shut t) {power : BindingPower}
    {operator : BindingPower × OperatorForm} (hpending : s.pending power = some operator) :
    t.pending power = some operator := by
  have hoperator := (State.pending_eq_some.mp hpending).1
  have hkind := h.kind (TokenKind.breaksBefore_of_operatorForm? hoperator)
  unfold pending at hpending ⊢
  rw [hkind, hpending]

theorem Wraps.atStatementEnd (h : s.Wraps .shut t) (hend : s.atStatementEnd) : t.atStatementEnd := by
  unfold State.atStatementEnd at hend ⊢
  rcases h.kind_or nofun with hkind | hkind
  · rw [hkind]
    exact hend
  · rw [hkind]
    rfl

theorem kind_peek_one (s : State) : (s.peek 1).kind = s.advanced.kind ∨ s.rest = [] := by
  cases hrest : s.rest with
  | nil => exact .inr rfl
  | cons slot slots =>
      have hadvances := s.advances_advanced
      left
      rw [peek, State.kind, current, State.slot, rest_advanced hrest, hadvances.endOfFile,
        hadvances.commentAtEnd, hrest]
      rfl

theorem Wraps.statementPart (h : s.Wraps .shut t) : t.statementPart = s.statementPart := by
  cases hform : s.kind.statementForm? with
  | none =>
      have hnone : t.kind.statementForm? = none := by
        rcases h.kind_or nofun with hkind | hkind
        · rw [hkind, hform]
        · rw [hkind]
          rfl
      unfold State.statementPart
      rw [hform, hnone]
  | some form =>
      have hkind := h.kind (TokenKind.breaksBefore_of_statementForm? hform)
      have hnext : s.kind = .keyword .fnKw →
          ((t.peek 1).kind = .leftParen ↔ (s.peek 1).kind = .leftParen) := by
        intro hfn
        obtain ⟨-, -, hafter⟩ := h.passes hfn rfl
        have hpeek : ∀ {u : State}, u.kind = .keyword .fnKw → (u.peek 1).kind = u.advanced.kind :=
          fun {u} hu => u.kind_peek_one.resolve_right fun hnil => by
            rw [kind_of_nil hnil] at hu
            cases hu
        rw [hpeek hfn, hpeek (hkind.trans hfn)]
        constructor
        · intro hparen
          by_contra hother
          exact hafter.kind_ne nofun hother nofun hparen
        · intro hparen
          rw [hafter.kind (by rw [hparen]; rfl), hparen]
      unfold State.statementPart
      rw [hkind, hform]
      simp only
      by_cases hfn : s.kind = .keyword .fnKw
      · simp only [hfn, true_and, hnext hfn]
      · simp only [hfn, false_and]

theorem bare_leaf (h : t.current.text = s.current.text) (kind : NodeKind) :
    (t.leaf kind).bare = (s.leaf kind).bare := by
  unfold leaf Node.leaf
  rw [Node.bare_mk, Node.bare_mk, h]

end State

theorem FunctionWords.wrapped {s s' t : State} {isAsync : Bool} (h : FunctionWords s isAsync s')
    (ht : s.Wraps .shut t) : ∃ t', FunctionWords t isAsync t' ∧ s'.Wraps .shut t' := by
  cases h with
  | plain hfn hname =>
      obtain ⟨hfn', -, ht₁⟩ := ht.passes hfn rfl
      exact ⟨_, .plain hfn' (ht₁.kind_ne nofun hname nofun), ht₁⟩
  | asyncFirst hasync hfn =>
      obtain ⟨hasync', -, ht₁⟩ := ht.passes hasync rfl
      obtain ⟨hfn', -, ht₂⟩ := ht₁.passes hfn rfl
      exact ⟨_, .asyncFirst hasync' hfn', ht₂⟩
  | asyncLast hfn hasync =>
      obtain ⟨hfn', -, ht₁⟩ := ht.passes hfn rfl
      obtain ⟨hasync', -, ht₂⟩ := ht₁.passes hasync rfl
      exact ⟨_, .asyncLast hfn' hasync', ht₂⟩

theorem SameNodes.singleton {n : Node} {nodes : List Node} (h : SameNodes nodes [n]) :
    ∃ n', nodes = [n'] ∧ n'.bare = n.bare := by
  obtain ⟨n', rest, rfl, hbare, hrest⟩ := List.map_eq_cons_iff.mp h
  obtain rfl := List.map_eq_nil_iff.mp hrest
  exact ⟨n', rfl, hbare⟩

namespace Part

/-- The part with another node that it continues. -/
def withLeft (left : Node) : Part → Part
  | climb power _ => climb power left
  | continuation next _ operator => continuation next left operator
  | part => part

/-- Where a part begins that is read once more, continuing `left'`.  Before statements and members a line
break is skipped, and so is one behind a comma or a bracket; the names of a path stand on one line. -/
def Enters (left' : Node) (s t : State) : Part → Prop
  | climb _ left | continuation _ left _ => left'.bare = left.bare ∧ s.Wraps .shut t
  | list opener closer _ _ => opener.closer? = some closer ∧ s.Wraps .shut t
  | statements _ | members _ => s.Wraps .free t
  | segments | moreSegments => s.Wraps .path t
  | more _ => s.Meets t
  | _ => s.Wraps .shut t

/-- Where a part ends.  A list leaves no line break before the bracket that closes it. -/
def Leaves (s t : State) : Part → Prop
  | statements _ | members _ | more _ => s.Meets t
  | _ => s.Wraps .shut t

/-- The part is read from `t` on as well, where it continues `left'`, and what it gives are the nodes. -/
def Rereads (part : Part) (left' : Node) (nodes : List Node) (t s' : State) : Prop :=
  ∃ nodes' t', Reads true (part.withLeft left') nodes' t t' ∧ SameNodes nodes' nodes ∧ part.Leaves s' t'

namespace Rereads

variable {part : Part} {left' n : Node} {s' t t' : State}

theorem single (h : part.Rereads left' [n] t s') :
    ∃ n' t', Reads true (part.withLeft left') [n'] t t' ∧ n'.bare = n.bare ∧ part.Leaves s' t' := by
  obtain ⟨nodes', t', hreads, hsame, hleaves⟩ := h
  obtain ⟨n', rfl, hbare⟩ := hsame.singleton
  exact ⟨n', t', hreads, hbare, hleaves⟩

theorem listed {first rest : Part} {nodes : List Node} {s₁ s₂ : State} (h : first.Rereads left' [n] t s₁)
    (hrest : ∀ {t₁ : State}, first.Leaves s₁ t₁ → rest.Rereads left' nodes t₁ s₂) :
    ∃ n' nodes' t₁ t₂, Reads true (first.withLeft left') [n'] t t₁ ∧ first.Leaves s₁ t₁ ∧
      Reads true (rest.withLeft left') nodes' t₁ t₂ ∧ SameNodes (n' :: nodes') (n :: nodes) ∧
        rest.Leaves s₂ t₂ := by
  obtain ⟨n', t₁, hfirst, hbare, ht₁⟩ := h.single
  obtain ⟨nodes', t₂, hrest', hsame, ht₂⟩ := hrest ht₁
  exact ⟨n', nodes', t₁, t₂, hfirst, ht₁, hrest', .cons hbare hsame, ht₂⟩

theorem node {kind : NodeKind} {children children' : List Node} {span span' : Span}
    {literal literal' : Option String}
    (hreads : Reads true (part.withLeft left') [⟨kind, children', span', literal'⟩] t t')
    (hsame : SameNodes children' children) (hliteral : literal' = literal)
    (hleaves : part.Leaves s' t') : part.Rereads left' [⟨kind, children, span, literal⟩] t s' := by
  subst hliteral
  exact ⟨_, t', hreads, .cons (hsame.bare _ _ _ _) .nil, hleaves⟩

end Rereads

end Part

namespace Item

variable {item : Item} {n left' : Node} {s t s' : State}

theorem enters (h : s.Wraps .shut t) : item.part.Enters left' s t := by
  cases item <;> exact h

theorem rereads (h : item.part.Rereads left' [n] t s') :
    ∃ n' t', Reads true item.part [n'] t t' ∧ n'.bare = n.bare ∧ s'.Wraps .shut t' := by
  cases item <;> exact h.single

end Item

namespace State

variable {s s' t : State}

theorem Wraps.enters_statementPart {left' : Node} (h : s.Wraps .shut t) :
    s.statementPart.Enters left' s.begun t.begun := by
  unfold State.statementPart
  repeat' split
  all_goals exact h.begun

theorem Wraps.rereads_statement {n left' : Node} (ht : s.Wraps .shut t)
    (h : s.statementPart.Rereads left' [n] t.begun s') :
    ∃ n' t', Reads true t.statementPart [n'] t.begun t' ∧ n'.bare = n.bare ∧ s'.Wraps .shut t' := by
  obtain ⟨n', t', hreads, hbare, hleaves⟩ := h.single
  have hpart : s.statementPart.withLeft left' = s.statementPart := by
    unfold State.statementPart
    repeat' split
    all_goals rfl
  rw [hpart, ← ht.statementPart] at hreads
  refine ⟨n', t', hreads, hbare, ?_⟩
  unfold State.statementPart at hleaves
  repeat' split at hleaves
  all_goals exact hleaves

theorem atListEnd_of_kind_eq {inBlock : Bool} (h : t.kind = s.kind) :
    Parser.atListEnd inBlock t = Parser.atListEnd inBlock s := by
  rw [Parser.atListEnd, Parser.atListEnd, h]

end State

variable {part : Part} {nodes : List Node} {s s' t : State}

theorem State.Wraps.separated {inBlock : Bool} (h : s.Wraps .shut t)
    (hseparated : s.kind.isSeparator ∨ Parser.atListEnd inBlock s) :
    t.kind.isSeparator ∨ Parser.atListEnd inBlock t := by
  rcases h.kind_or nofun with hkind | hkind
  · rw [State.atListEnd_of_kind_eq hkind, hkind]
    exact hseparated
  · exact .inl (by rw [hkind]; rfl)

theorem State.Wraps.assignmentKind?_eq_none (h : s.Wraps .shut t)
    (hkind : Parser.assignmentKind? s.kind = none) : Parser.assignmentKind? t.kind = none := by
  rcases h.kind_or nofun with hsame | hbreak
  · rw [hsame, hkind]
  · rw [hbreak]
    rfl

theorem Reads.atStatementEnd_of_wraps {power : BindingPower} (h : Reads true (.expression power) nodes s s')
    (hend : s.atStatementEnd = false) (ht : s.Wraps .shut t) : t.atStatementEnd = false := by
  cases h with
  | gap _ _ _ herror => cases herror
  | expression _ hform =>
      rw [State.atStatementEnd, ht.kind (TokenKind.breaksBefore_of_operandForm? hform)]
      exact hend

namespace Part.Rereads

variable {left' n : Node} {nodes : List Node} {s s₁ s₂ s' t : State}

section
variable {kind : TokenKind} {part first second : Part} {a b : Node} (ht : s.Wraps .shut t)
include ht

theorem behind (hkind : s.kind = kind) (hinner : kind.isInner)
    (h : ∀ {t₁ : State}, s.advanced.Wraps .shut t₁ → part.Rereads left' [n] t₁ s') :
    ∃ n' t', t.kind = kind ∧ t.current.text = s.current.text ∧
      Reads true (part.withLeft left') [n'] t.advanced t' ∧ n'.bare = n.bare ∧ part.Leaves s' t' := by
  obtain ⟨hkind', htext, ht₁⟩ := ht.passes hkind hinner
  obtain ⟨n', t', hreads, hbare, hleaves⟩ := (h ht₁).single
  exact ⟨n', t', hkind', htext, hreads, hbare, hleaves⟩

/-- A word and two parts behind it, as functions, loops and branches have them. -/
theorem bothBehind (hkind : s.kind = kind) (hinner : kind.isInner)
    (h : ∀ {t₁ : State}, s.advanced.Wraps .shut t₁ → first.Rereads left' [a] t₁ s₁)
    (h' : ∀ {t₁ : State}, first.Leaves s₁ t₁ → second.Rereads left' [b] t₁ s₂) :
    ∃ a' b' t₁ t₂, t.kind = kind ∧ t.current.text = s.current.text ∧
      Reads true (first.withLeft left') [a'] t.advanced t₁ ∧
        Reads true (second.withLeft left') [b'] t₁ t₂ ∧ SameNodes [a', b'] [a, b] ∧
          second.Leaves s₂ t₂ := by
  obtain ⟨a', t₁, hkind', htext, hfirst, hbare, ht₁⟩ := behind ht hkind hinner h
  obtain ⟨b', t₂, hsecond, hbare', ht₂⟩ := (h' ht₁).single
  exact ⟨a', b', t₁, t₂, hkind', htext, hfirst, hsecond, .cons hbare (.cons hbare' .nil), ht₂⟩

theorem climbed {power : BindingPower} {form : OperandForm} (hdepth : s.depth < nestingLimit)
    (hform : s.kind.operandForm? = some form) (hfirst : (operand form).Rereads left' [a] t.entered s₁)
    (hclimb : ∀ {a' t₁}, a'.bare = a.bare → s₁.Wraps .shut t₁ → (climb power a).Rereads a' [n] t₁ s₂) :
    (expression power).Rereads left' [n] t (s₂.leaving s.depth) := by
  have hkind := ht.kind (TokenKind.breaksBefore_of_operandForm? hform)
  obtain ⟨_, _, hfirst', hbare, ht₁⟩ := hfirst.single
  obtain ⟨_, _, hclimb', hbare', ht₂⟩ := (hclimb hbare ht₁).single
  exact ⟨_, _, .expression (by rwa [ht.depth]) (by rwa [hkind]) hfirst' hclimb', .cons hbare' .nil,
    ht₂.leaving ht.depth⟩

theorem folded {power next : BindingPower} {form : OperatorForm}
    (hpending : s.pending power = some (next, form)) (hdepth : s.depth < nestingLimit)
    (hfolded : (continuation next a form).Rereads left' [b] t.entered s₁)
    (hclimb : ∀ {b' t₁}, b'.bare = b.bare → s₁.Wraps .shut t₁ → (climb power b).Rereads b' [n] t₁ s₂) :
    (climb power a).Rereads left' [n] t s₂ := by
  obtain ⟨_, _, hfolded', hbare, ht₁⟩ := hfolded.single
  obtain ⟨_, _, hclimb', hbare', ht₂⟩ := (hclimb hbare ht₁).single
  exact ⟨_, _, .climbFold (ht.pending_eq_some hpending) (by rwa [ht.depth]) hfolded' hclimb',
    .cons hbare' .nil, ht₂⟩

theorem operation {next : BindingPower} {form : OperatorForm} (hleft : left'.bare = a.bare)
    (hform : form ≠ .subscript) (hkind : s.kind.operatorForm? = some (next, form))
    (hright : ∀ {t₁ : State}, s.advanced.pastNewlines.Wraps .shut t₁ →
      (expression (form.rightPower next)).Rereads left' [b] t₁ s') (span : Span) :
    (continuation next a form).Rereads left'
      [⟨form.nodeKind, [a, b], span, form.literal? s.current.text⟩] t s' := by
  obtain ⟨hkind', htext, ht₁⟩ := ht.takes rfl (TokenKind.breaksBefore_of_operatorForm? hkind) nofun
  obtain ⟨_, _, hright', hbare, ht₂⟩ := (hright ht₁.pastNewlines.toWraps).single
  exact .node (.operation hform (by rwa [hkind']) hright') (.cons hleft (.cons hbare .nil))
    (congrArg _ htext) ht₂

theorem subscript {next : BindingPower} (hleft : left'.bare = a.bare) (hkind : s.kind = .leftBracket)
    (hclosing : s₁.pastNewlines.kind = .rightBracket)
    (hindex : ∀ {t₁ : State}, (s.advanced.opened .rightBracket true).pastNewlines.Wraps .shut t₁ →
      (expression .lowest).Rereads left' [b] t₁ s₁) (span : Span) :
    (continuation next a .subscript).Rereads left' [Node.branch .subscript span [a, b]] t
      s₁.pastNewlines.advanced.closed := by
  obtain ⟨hkind', -, ht₁⟩ := ht.takes hkind rfl nofun
  have hinside := (ht₁.opened .rightBracket true).pastNewlines.toWraps
  obtain ⟨_, _, hindex', hbare, ht₂⟩ := (hindex hinside).single
  have hpair : TokenKind.leftBracket.closer? = some .rightBracket := rfl
  obtain ⟨hclosing', ht₃⟩ := ht₂.pastNewlines.closes hpair hclosing
  exact .node (.subscript hkind' hindex' hclosing') (.cons hleft (.cons hbare .nil)) rfl ht₃

theorem entry (hkind : s.kind = .string) (hcolon : s.advanced.kind = .colon)
    (hvalue : ∀ {t₁ : State}, s.advanced.advanced.pastNewlines.Wraps .shut t₁ →
      (expression .lowest).Rereads left' [a] t₁ s') (span : Span) :
    Part.entry.Rereads left' [Node.branch .keyValuePair span [s.leaf .stringLit, a]] t s' := by
  obtain ⟨hkind', htext, ht₁⟩ := ht.passes hkind rfl
  obtain ⟨hcolon', -, ht₂⟩ := ht₁.takes hcolon rfl nofun
  obtain ⟨_, _, hvalue', hbare, ht₃⟩ := (hvalue ht₂.pastNewlines.toWraps).single
  exact .node (.entry hkind' hcolon' hvalue') (.cons (State.bare_leaf htext _) (.cons hbare .nil)) rfl ht₃

theorem emptyList {opener closer : TokenKind} {expressionList : Bool} {item : Item}
    (hpair : opener.closer? = some closer) (hopener : s.kind = opener)
    (hcloser : (s.advanced.opened closer expressionList).pastNewlines.kind = closer) :
    (list opener closer expressionList item).Rereads left' [] t
      (s.advanced.opened closer expressionList).pastNewlines.advanced.closed := by
  obtain ⟨hopener', -, ht₁⟩ := ht.takes hopener (TokenKind.breaksBefore_of_opener hpair) nofun
  obtain ⟨hcloser', ht₂⟩ := (ht₁.opened closer expressionList).pastNewlines.closes hpair hcloser
  exact ⟨[], _, .emptyList hopener' hcloser', .nil, ht₂⟩

theorem items {opener closer : TokenKind} {expressionList : Bool} {item : Item} {rest : List Node}
    (hpair : opener.closer? = some closer) (hopener : s.kind = opener) (hcloser : s₂.kind = closer)
    (hfirst : ∀ {t₁ : State}, (s.advanced.opened closer expressionList).pastNewlines.Wraps .shut t₁ →
      item.part.Rereads left' [a] t₁ s₁)
    (hrest : ∀ {t₁ : State}, s₁.pastNewlines.Meets t₁ → (more item).Rereads left' rest t₁ s₂) :
    (list opener closer expressionList item).Rereads left' (a :: rest) t s₂.advanced.closed := by
  obtain ⟨hopener', -, ht₁⟩ := ht.takes hopener (TokenKind.breaksBefore_of_opener hpair) nofun
  have hinside := (ht₁.opened closer expressionList).pastNewlines.toWraps
  obtain ⟨_, _, hfirst', hbare, ht₂⟩ := Item.rereads (hfirst hinside)
  obtain ⟨_, _, hrest', hsame, ht₃⟩ := hrest ht₂.pastNewlines
  obtain ⟨hcloser', ht₄⟩ := ht₃.closes hpair hcloser
  exact ⟨_, _, .items hopener' hfirst' hrest' hcloser', .cons hbare hsame, ht₄⟩

theorem block (hdepth : s.depth < nestingLimit) (hopener : s.kind = .leftBrace)
    (hclosing : s₁.kind = .rightBrace)
    (hbody : ∀ {t₁ : State}, (s.entered.advanced.opened .rightBrace false).Wraps .free t₁ →
      (statements true).Rereads left' nodes t₁ s₁) (span : Span) :
    Part.block.Rereads left' [Node.branch .block span nodes] t (s₁.closed.advanced.leaving s.depth) := by
  obtain ⟨hopener', -, ht₁⟩ := ht.entered.takes hopener rfl nofun
  obtain ⟨_, _, hbody', hsame, ht₂⟩ := hbody (ht₁.opened .rightBrace false)
  obtain ⟨hclosing', ht₃⟩ := ht₂.closed.advanced hclosing nofun
  exact .node (.block (by rwa [ht.depth]) hopener' hbody' hclosing') hsame rfl (ht₃.leaving ht.depth)

theorem structDecl (hkind : s.kind = .keyword .structKw) (hname : s.advanced.kind = .identifier)
    (hopener : s.advanced.advanced.kind = .leftBrace) (hclosing : s₁.kind = .rightBrace)
    (hmembers : ∀ {t₁ : State}, (s.advanced.advanced.advanced.opened .rightBrace false).Wraps .free t₁ →
      (members false).Rereads left' nodes t₁ s₁) (span : Span) :
    (form .structDecl).Rereads left'
      [Node.branch .structDecl span (s.advanced.leaf .identifier :: nodes)] t s₁.closed.advanced := by
  obtain ⟨hkind', -, ht₁⟩ := ht.passes hkind rfl
  obtain ⟨hname', htext, ht₂⟩ := ht₁.passes hname rfl
  obtain ⟨hopener', -, ht₃⟩ := ht₂.takes hopener rfl nofun
  obtain ⟨_, _, hmembers', hsame, ht₄⟩ := hmembers (ht₃.opened .rightBrace false)
  obtain ⟨hclosing', ht₅⟩ := ht₄.closed.advanced hclosing nofun
  exact .node (.structDecl hkind' hname' hopener' hmembers' hclosing')
    (.cons (State.bare_leaf htext _) hsame) rfl ht₅

theorem importAs (hkind : s.kind = .keyword .useKw) (has : s₁.kind = .keyword .asKw)
    (hname : s₁.advanced.kind = .identifier)
    (hpath : ∀ {t₁ : State}, s.advanced.Wraps .shut t₁ → path.Rereads left' [a] t₁ s₁) (span : Span) :
    (form .importStmt).Rereads left' [Node.branch .importStmt span [a, s₁.advanced.leaf .identifier]] t
      s₁.advanced.advanced := by
  obtain ⟨_, _, hkind', -, hpath', hbare, ht₁⟩ := behind ht hkind rfl hpath
  obtain ⟨has', -, ht₂⟩ := ht₁.passes has rfl
  obtain ⟨hname', htext, ht₃⟩ := ht₂.passes hname rfl
  exact .node (.importAs hkind' hpath' has' hname')
    (.cons hbare (.cons (State.bare_leaf htext _) .nil)) rfl ht₃

theorem importNames (hkind : s.kind = .keyword .useKw) (hsome : nodes ≠ [])
    (hfrom : s₁.kind = .keyword .fromKw)
    (hnames : ∀ {t₁ : State}, s.advanced.Wraps .shut t₁ →
      (list .leftBrace .rightBrace false .name).Rereads left' nodes t₁ s₁)
    (hpath : ∀ {t₁ : State}, s₁.advanced.Wraps .shut t₁ → path.Rereads left' [a] t₁ s₂) (span : Span) :
    (form .importStmt).Rereads left' [Node.branch .importStmt span (nodes ++ [a])] t s₂ := by
  obtain ⟨hkind', -, ht₁⟩ := ht.passes hkind rfl
  obtain ⟨_, _, hnames', hsame, ht₂⟩ := hnames ht₁
  obtain ⟨_, _, hfrom', -, hpath', hbare, ht₃⟩ := behind ht₂ hfrom rfl hpath
  exact .node (.importNames hkind' hnames' (hsame.ne_nil hsome) hfrom' hpath')
    (.append hsame (.cons hbare .nil)) rfl ht₃

/-- The name, the parameters and the body that the declaration of a function or a macro ends in. -/
theorem signature (hname : s.kind = .identifier)
    (hparameters : ∀ {t₁ : State}, s.advanced.Wraps .shut t₁ → parameters.Rereads left' [a] t₁ s₁)
    (hbody : ∀ {t₁ : State}, s₁.Wraps .shut t₁ → Part.block.Rereads left' [b] t₁ s₂) :
    ∃ a' b' t₁ t₂, t.kind = .identifier ∧ Reads true .parameters [a'] t.advanced t₁ ∧
      Reads true .block [b'] t₁ t₂ ∧
        SameNodes [t.leaf .identifier, a', b'] [s.leaf .identifier, a, b] ∧ s₂.Wraps .shut t₂ := by
  obtain ⟨_, _, _, _, hname', htext, hparameters', hbody', hsame, ht₁⟩ :=
    bothBehind ht hname rfl hparameters hbody
  exact ⟨_, _, _, _, hname', hparameters', hbody', .cons (State.bare_leaf htext _) hsame, ht₁⟩

end

theorem assign {kind : NodeKind} {a b : Node}
    (htarget : (expression .assignment).Rereads left' [a] t s₁)
    (hkind : Parser.assignmentKind? s₁.kind = some kind)
    (hvalid : Parser.isValidTarget kind a || a.isError)
    (hvalue : ∀ {t₁ : State}, s₁.advanced.Wraps .shut t₁ →
      (expression .assignment).Rereads left' [b] t₁ s₂) (span : Span) :
    assignment.Rereads left'
      [⟨kind, [a, b], span, if kind = .compoundAssign then some s₁.current.text else none⟩] t s₂ := by
  obtain ⟨_, _, htarget', hbare, ht₁⟩ := htarget.single
  obtain ⟨_, _, hkind', htext, hvalue', hbare', ht₂⟩ :=
    behind ht₁ rfl (TokenKind.isInner_of_assignmentKind? hkind) hvalue
  rw [← Node.isValidTarget_of_bare hbare, ← Node.isError_of_bare hbare] at hvalid
  exact .node (.assign htarget' (by rwa [hkind']) hvalue' hvalid) (.cons hbare (.cons hbare' .nil))
    (by rw [htext]) ht₂

end Part.Rereads

theorem Reads.rereads_segments (h : Reads true part nodes s s') (left' : Node)
    (hpart : part = .segments ∨ part = .moreSegments) (ht : s.Wraps .path t) :
    part.Rereads left' nodes t s' := by
  induction h generalizing t with
  | address hkind =>
      obtain ⟨hkind', htext, ht₁⟩ := ht.takes hkind rfl nofun
      exact .node (.address hkind') .nil (congrArg some htext) (ht₁.mono (Edge.past_le _ rfl))
  | segments hkind _ ih =>
      obtain ⟨hkind', htext, ht₁⟩ := ht.takes hkind rfl nofun
      obtain ⟨_, _, hrest, hsame, ht₂⟩ := ih (.inr rfl) ht₁
      exact ⟨_, _, .segments hkind' hrest, .cons (State.bare_leaf htext _) hsame, ht₂⟩
  | noMoreSegments hkind =>
      exact ⟨[], t, .noMoreSegments (ht.kind_ne nofun hkind nofun), .nil, ht.mono (Edge.path_le _)⟩
  | moreSegments hkind hname _ ih =>
      obtain ⟨hkind', -, ht₁⟩ := ht.takes hkind rfl nofun
      obtain ⟨hname', htext, ht₂⟩ := ht₁.takes hname rfl nofun
      obtain ⟨_, _, hrest, hsame, ht₃⟩ := ih (.inr rfl) ht₂
      exact ⟨_, _, .moreSegments hkind' hname' hrest, .cons (State.bare_leaf htext _) hsame, ht₃⟩
  | _ => simp at hpart

theorem Reads.rereads_path (h : Reads true .path nodes s s') (left' : Node) (ht : s.Wraps .shut t) :
    Part.path.Rereads left' nodes t s' := by
  cases h with
  | knownPath hkind hcolon hparts hscheme =>
      obtain ⟨hkind', htext, ht₁⟩ := ht.takes hkind rfl nofun
      obtain ⟨hcolon', -, ht₂⟩ := ht₁.takes hcolon rfl nofun
      obtain ⟨_, _, hparts', hsame, ht₃⟩ := hparts.rereads_segments left' (.inl rfl) ht₂
      exact .node (.knownPath hkind' hcolon' hparts' (by rwa [htext])) hsame (congrArg some htext) ht₃
  | unknownPath _ _ _ _ herror => cases herror

/-- What is read without an error is read with one line break more, where a list may be broken. -/
theorem Reads.wrapped (h : Reads true part nodes s s') (left' : Node) {t : State}
    (ht : part.Enters left' s t) : part.Rereads left' nodes t s' := by
  -- an operand before an operator is read once more itself, so that operator continues another node
  induction h generalizing left' t with
  | gap _ _ _ herror | lexicalError _ herror | openBlock _ _ _ _ herror | joined _ _ _ _ herror
  | broken _ _ _ herror | misassign _ _ _ _ herror | lateField _ herror
  | unknownPath _ _ _ _ herror | lateClause _ _ _ herror => cases herror
  | expression hdepth hform _ _ ihfirst ihclimb =>
      exact .climbed ht hdepth hform (ihfirst left' ht.entered) fun hbare ht₁ => ihclimb _ ⟨hbare, ht₁⟩
  | climbStop hpending =>
      obtain ⟨hbare, ht⟩ := ht
      exact ⟨[left'], t, .climbStop (ht.pending_eq_none hpending), .cons hbare .nil, ht⟩
  | climbFold hpending hdepth _ _ ihfolded ihclimb =>
      obtain ⟨hbare, ht⟩ := ht
      have hfolded := ihfolded left' ⟨hbare, ht.entered⟩
      exact .folded ht hpending hdepth hfolded fun hbare ht₁ => ihclimb _ ⟨hbare, ht₁⟩
  | literal hkind =>
      obtain ⟨hkind', htext, ht₁⟩ := ht.passes rfl (TokenKind.isInner_of_literalKind? hkind)
      exact .node (.literal (by rwa [hkind'])) .nil (congrArg some htext) ht₁
  | name hkind hparen =>
      obtain ⟨hkind', htext, ht₁⟩ := ht.passes hkind rfl
      exact .node (.name hkind' (ht₁.kind_ne nofun hparen nofun)) .nil (congrArg some htext) ht₁
  | identifier hkind =>
      obtain ⟨hkind', htext, ht₁⟩ := ht.passes hkind rfl
      exact .node (.identifier hkind') .nil (congrArg some htext) ht₁
  | call hkind _ ih =>
      obtain ⟨hkind', htext, ht₁⟩ := ht.passes hkind rfl
      obtain ⟨_, _, hvalues, hsame, ht₂⟩ := ih left' ⟨rfl, ht₁⟩
      exact .node (.call hkind' hvalues) (.cons (State.bare_leaf htext _) hsame) rfl ht₂
  | array _ ih =>
      obtain ⟨_, _, helements, hsame, ht₁⟩ := ih left' ⟨rfl, ht⟩
      exact .node (.array helements) hsame rfl ht₁
  | object _ ih =>
      obtain ⟨_, _, hentries, hsame, ht₁⟩ := ih left' ⟨rfl, ht⟩
      exact .node (.object hentries) hsame rfl ht₁
  | parameters _ ih =>
      obtain ⟨_, _, hnames, hsame, ht₁⟩ := ih left' ⟨rfl, ht⟩
      exact .node (.parameters hnames) hsame rfl ht₁
  | lambda hkind _ _ ihparameters ihbody =>
      obtain ⟨_, _, _, _, hkind', -, hparameters, hbody, hsame, ht₁⟩ :=
        Part.Rereads.bothBehind ht hkind rfl (ihparameters left') (ihbody left')
      exact .node (.lambda hkind' hparameters hbody) hsame rfl ht₁
  | macroCall hsigil hname _ ih =>
      obtain ⟨hsigil', htext, ht₁⟩ := ht.passes rfl (TokenKind.isInner_of_operandForm? hsigil (.inl rfl))
      obtain ⟨hname', htext', ht₂⟩ := ht₁.passes hname rfl
      obtain ⟨_, _, hvalues, hsame, ht₃⟩ := ih left' ⟨rfl, ht₂⟩
      exact .node (.macroCall (by rwa [hsigil']) hname' hvalues) (.cons (State.bare_leaf htext' _) hsame)
        (congrArg some htext) ht₃
  | awaitExpr hkind _ ih =>
      obtain ⟨_, _, hkind', -, hoperand, hbare, ht₁⟩ := Part.Rereads.behind ht hkind rfl (ih left')
      exact .node (.awaitExpr hkind' hoperand) (.cons hbare .nil) rfl ht₁
  | bang hkind _ ih =>
      have hinner := TokenKind.isInner_of_operandForm? hkind (.inr rfl)
      obtain ⟨_, _, hkind', htext, hoperand, hbare, ht₁⟩ := Part.Rereads.behind ht rfl hinner (ih left')
      exact .node (.bang (by rwa [hkind']) hoperand) (.cons hbare .nil) (congrArg some htext) ht₁
  | operation hform hkind _ ih => exact .operation ht.2 ht.1 hform hkind (ih left') _
  | subscript hkind _ hclosing ih => exact .subscript ht.2 ht.1 hkind hclosing (ih left') _
  | entry hkind hcolon _ ih => exact .entry ht hkind hcolon (ih left') _
  | emptyList hopener hcloser => exact .emptyList ht.2 ht.1 hopener hcloser
  | items hopener _ _ hcloser ihfirst ihrest =>
      exact .items ht.2 ht.1 hopener hcloser (fun ht₁ => ihfirst left' (Item.enters ht₁)) (ihrest left')
  | noMore hkind =>
      exact ⟨[], t, .noMore (by rwa [ht.kind]), .nil, ht⟩
  | more hkind _ _ ihnext ihrest =>
      obtain ⟨hkind', ht₁⟩ := ht.advanced hkind nofun
      have hbehind := ht₁.pastNewlines.toWraps
      obtain ⟨_, _, hnext, hbare, ht₂⟩ := Item.rereads (ihnext left' (Item.enters hbehind))
      obtain ⟨_, _, hrest, hsame, ht₃⟩ := ihrest left' ht₂.pastNewlines
      exact ⟨_, _, .more hkind' hnext hrest, .cons hbare hsame, ht₃⟩
  | block hdepth hopener _ hclosing ih => exact .block ht hdepth hopener hclosing (ih left') _
  | noStatements hend =>
      have ht := ht.pastSeparators
      exact ⟨[], _, .noStatements (by rwa [State.atListEnd_of_kind_eq ht.kind]), .nil, ht⟩
  | whole hmore _ hseparated _ ihfirst ihrest =>
      have ht := ht.pastSeparators
      obtain ⟨_, _, _, _, hnode, ht₁, hrest, hsame, ht₂⟩ :=
        (ihfirst left' ht.toWraps).listed fun ht₁ => ihrest left' ht₁.free
      exact ⟨_, _, .whole (by rwa [State.atListEnd_of_kind_eq ht.kind]) hnode
        (ht₁.separated hseparated) hrest, hsame, ht₂⟩
  | statement _ ih =>
      have hform := ih left' (State.Wraps.enters_statementPart ht)
      obtain ⟨_, _, hnode, hbare, ht₁⟩ := State.Wraps.rereads_statement ht hform
      exact ⟨_, _, .statement hnode, .cons hbare .nil, ht₁⟩
  | bare _ hkind ih =>
      obtain ⟨_, _, hvalue, hbare, ht₁⟩ := (ih left' ht).single
      exact .node (.bare hvalue (ht₁.assignmentKind?_eq_none hkind)) (.cons hbare .nil) rfl ht₁
  | assign _ hkind _ hvalid ihtarget ihvalue =>
      exact .assign (ihtarget left' ht) hkind hvalid (ihvalue left') _
  | functionDecl hwords hname _ _ ihparameters ihbody =>
      obtain ⟨_, hwords', ht₁⟩ := hwords.wrapped ht
      obtain ⟨_, _, _, _, hname', hparameters, hbody, hsame, ht₂⟩ :=
        Part.Rereads.signature ht₁ hname (ihparameters left') (ihbody left')
      exact .node (.functionDecl hwords' hname' hparameters hbody) hsame rfl ht₂
  | macroDecl hkind hname _ _ ihparameters ihbody =>
      obtain ⟨hkind', -, ht₁⟩ := ht.passes hkind rfl
      obtain ⟨_, _, _, _, hname', hparameters, hbody, hsame, ht₂⟩ :=
        Part.Rereads.signature ht₁ hname (ihparameters left') (ihbody left')
      exact .node (.macroDecl hkind' hname' hparameters hbody) hsame rfl ht₂
  | structDecl hkind hname hopener _ hclosing ih =>
      exact .structDecl ht hkind hname hopener hclosing (ih left') _
  | noMembers hkind =>
      have ht := ht.pastSeparators
      exact ⟨[], _, .noMembers (by rwa [ht.kind]), .nil, ht⟩
  | members _ hend _ ihfirst ihrest =>
      obtain ⟨_, _, _, _, hnode, ht₁, hrest, hsame, ht₂⟩ :=
        (ihfirst left' ht.pastSeparators.toWraps).listed fun ht₁ => ihrest left' ht₁.free
      exact ⟨_, _, .members hnode (ht₁.atStatementEnd hend) hrest, hsame, ht₂⟩
  | method hkind _ ih =>
      have hsame := ht.kind (by rcases hkind with hkind | hkind <;> rw [hkind] <;> rfl)
      obtain ⟨_, _, hnode, hbare, ht₁⟩ := (ih left' ht).single
      exact ⟨_, _, .method (by rwa [hsame]) hnode, .cons hbare .nil, ht₁⟩
  | earlyField _ ih =>
      obtain ⟨_, _, hnode, hbare, ht₁⟩ := (ih left' ht).single
      exact ⟨_, _, .earlyField hnode, .cons hbare .nil, ht₁⟩
  | field hkind hassign _ ih =>
      obtain ⟨hkind', htext, ht₁⟩ := ht.passes hkind rfl
      obtain ⟨_, _, hassign', -, hvalue, hbare, ht₂⟩ := Part.Rereads.behind ht₁ hassign rfl (ih left')
      exact .node (.field hkind' hassign' hvalue) (.cons (State.bare_leaf htext _) (.cons hbare .nil)) rfl ht₂
  | importPath hkind _ has ih =>
      obtain ⟨_, _, hkind', -, hpath, hbare, ht₁⟩ := Part.Rereads.behind ht hkind rfl (ih left')
      exact .node (.importPath hkind' hpath (ht₁.kind_ne nofun has nofun)) (.cons hbare .nil) rfl ht₁
  | importAs hkind _ has hname ih => exact .importAs ht hkind has hname (ih left') _
  | importNames hkind _ hsome hfrom _ ihnames ihpath =>
      exact .importNames ht hkind hsome hfrom (fun ht₁ => ihnames left' ⟨rfl, ht₁⟩) (ihpath left') _
  | knownPath hkind hcolon hparts hscheme =>
      exact (Reads.knownPath hkind hcolon hparts hscheme).rereads_path left' ht
  | address hkind => exact (Reads.address hkind).rereads_segments left' (.inl rfl) ht
  | segments hkind hrest => exact (Reads.segments hkind hrest).rereads_segments left' (.inl rfl) ht
  | noMoreSegments hkind => exact (Reads.noMoreSegments hkind).rereads_segments left' (.inr rfl) ht
  | moreSegments hkind hname hrest =>
      exact (Reads.moreSegments hkind hname hrest).rereads_segments left' (.inr rfl) ht
  | forStmt hkind _ _ ihcondition ihbody =>
      obtain ⟨_, _, _, _, hkind', -, hcondition, hbody, hsame, ht₁⟩ :=
        Part.Rereads.bothBehind ht hkind rfl (ihcondition left') (ihbody left')
      exact .node (.forStmt hkind' hcondition hbody) hsame rfl ht₁
  | ifStmt hkind _ _ _ ihcondition ihbody ihclauses =>
      obtain ⟨_, _, _, _, hkind', -, hcondition, hbody, hsame, ht₁⟩ :=
        Part.Rereads.bothBehind ht hkind rfl (ihcondition left') (ihbody left')
      obtain ⟨_, _, hclauses, hsame', ht₂⟩ := ihclauses left' ht₁
      exact .node (.ifStmt hkind' hcondition hbody hclauses) (hsame.append hsame') rfl ht₂
  | noClauses hclause =>
      exact ⟨[], t, .noClauses (by rwa [ht.kindPastNewlines]), .nil, ht⟩
  | clauses hclause _ _ ihnode ihrest =>
      obtain ⟨_, _, _, _, hnode, -, hrest, hsame, ht₁⟩ :=
        (ihnode left' ht.pastNewlines.toWraps).listed (ihrest left')
      exact ⟨_, _, .clauses (by rwa [ht.kindPastNewlines]) hnode hrest, hsame, ht₁⟩
  | elseClause hkind _ ih =>
      obtain ⟨_, _, hkind', -, hbody, hbare, ht₁⟩ := Part.Rereads.behind ht hkind rfl (ih left')
      exact .node (.elseClause hkind' hbody) (.cons hbare .nil) rfl ht₁
  | elifClause hkind _ _ ihcondition ihbody =>
      obtain ⟨_, _, _, _, hkind', -, hcondition, hbody, hsame, ht₁⟩ :=
        Part.Rereads.bothBehind ht hkind rfl (ihcondition left') (ihbody left')
      exact .node (.elifClause hkind' hcondition hbody) hsame rfl ht₁
  | bareReturn hkind hend =>
      obtain ⟨hkind', -, ht₁⟩ := ht.passes hkind rfl
      exact .node (.bareReturn hkind' (ht₁.atStatementEnd hend)) .nil rfl ht₁
  | returnStmt hkind hend hvalue ih =>
      obtain ⟨hkind', -, ht₁⟩ := ht.passes hkind rfl
      obtain ⟨_, _, hvalue', hbare, ht₂⟩ := (ih left' ht₁).single
      exact .node (.returnStmt hkind' (hvalue.atStatementEnd_of_wraps hend ht₁) hvalue') (.cons hbare .nil)
        rfl ht₂

end ScriptSyntax
