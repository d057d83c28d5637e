import ScriptSyntax.Proofs.Parsing.Outlined
import ScriptSyntax.Proofs.Parsing.Spans

/-!
The pair of brackets around a place.  It is found from the tokens behind the place, `Token.enclosing?`, and in an
outline it is the frame of the place, `Outline.exists_frame`; from the tree of a source it is known whether it
holds a list of expressions, `Outline.endsList_closer`.
-/

namespace ScriptSyntax

/-! ### The tokens behind a place -/

namespace Token

/-- The tokens from the first closing bracket on that closes no bracket opened among them, where `inner` brackets
are open before them. -/
def fromCloser : Nat → List Token → List Token
  | _, [] => []
  | inner, token :: tokens =>
      if token.kind.closer?.isSome then fromCloser (inner + 1) tokens
      else if token.kind.isCloser then
        if inner = 0 then token :: tokens else fromCloser (inner - 1) tokens
      else fromCloser inner tokens

/-- The closing bracket of the innermost pair around the place before the tokens. -/
def enclosing? (tokens : List Token) : Option Token := (fromCloser 0 tokens).head?

variable {token : Token} {tokens tokens' : List Token}

theorem fromCloser_of_not_bracket (inner : Nat) (h : token.kind.isBracket = false) :
    fromCloser inner (token :: tokens) = fromCloser inner tokens := by
  obtain ⟨hopener, hcloser⟩ := Bool.or_eq_false_iff.mp h
  rw [fromCloser, if_neg (by simp [hopener]), if_neg (by simp [hcloser])]

theorem fromCloser_opener (inner : Nat) (h : token.kind.closer?.isSome) :
    fromCloser inner (token :: tokens) = fromCloser (inner + 1) tokens := by
  rw [fromCloser, if_pos h]

section
variable (h : token.kind.isCloser) (hopener : token.kind.closer? = none)
include h hopener

theorem fromCloser_closer (inner : Nat) :
    fromCloser (inner + 1) (token :: tokens) = fromCloser inner tokens := by
  rw [fromCloser, hopener, if_neg (by simp), if_pos h, if_neg (Nat.succ_ne_zero inner), Nat.add_sub_cancel]

theorem fromCloser_zero : fromCloser 0 (token :: tokens) = token :: tokens := by
  rw [fromCloser, hopener, if_neg (by simp), if_pos h, if_pos rfl]

theorem enclosing?_closer : enclosing? (token :: tokens) = some token := by
  rw [enclosing?, fromCloser_zero h hopener, List.head?_cons]

end

theorem isBracket_of_isTrivia {kind : TokenKind} (h : kind.isTrivia) : kind.isBracket = false := by
  cases kind <;> first | rfl | cases h

theorem head?_fromCloser_significant (inner : Nat) (pending : Option Span) (tokens : List Token) :
    (fromCloser inner ((Slot.significant pending tokens).map (·.token))).head? =
      (fromCloser inner tokens).head? := by
  rw [Slot.map_token_significant]
  induction tokens generalizing inner with
  | nil => rfl
  | cons token tokens ih =>
      cases htrivia : token.kind.isTrivia with
      | true =>
          rw [fromCloser_of_not_bracket inner (isBracket_of_isTrivia htrivia),
            List.filter_cons_of_neg (by simp [htrivia]), ih]
      | false =>
          rw [List.filter_cons_of_pos (by simp [htrivia]), fromCloser, fromCloser]
          split
          · exact ih _
          split
          · split
            · rfl
            · exact ih _
          · exact ih _

theorem enclosing?_significant (pending : Option Span) (tokens : List Token) :
    enclosing? ((Slot.significant pending tokens).map (·.token)) = enclosing? tokens :=
  head?_fromCloser_significant 0 pending tokens

theorem enclosing?_endOfFile (tokens : List Token) (p : Position) :
    enclosing? (tokens ++ [Token.endOfFile p]) = enclosing? tokens := by
  have hcloser : ∀ inner, (fromCloser inner (tokens ++ [Token.endOfFile p])).head? =
      (fromCloser inner tokens).head? := by
    induction tokens with
    | nil => exact fun _ => rfl
    | cons token tokens ih =>
        intro inner
        rw [List.cons_append, fromCloser, fromCloser]
        split
        · exact ih _
        split
        · split
          · rfl
          · exact ih _
        · exact ih _
  exact hcloser 0

theorem map_kind_fromCloser (inner : Nat) (h : tokens'.map (·.kind) = tokens.map (·.kind)) :
    (fromCloser inner tokens').map (·.kind) = (fromCloser inner tokens).map (·.kind) := by
  induction tokens generalizing inner tokens' with
  | nil =>
      obtain rfl := List.map_eq_nil_iff.mp h
      rfl
  | cons token tokens ih =>
      obtain ⟨token', rest', rfl, hkind, hrest⟩ := List.map_eq_cons_iff.mp h
      rw [fromCloser, fromCloser, hkind]
      split
      · exact ih _ hrest
      split
      · split
        · exact h
        · exact ih _ hrest
      · exact ih _ hrest

theorem fromCloser_outline (inner : Nat) {o : Outline} (h : o.WellFormed) (tokens : List Token) :
    fromCloser inner (o.slots.map (·.token) ++ tokens) = fromCloser inner tokens := by
  induction o generalizing inner tokens with
  | nil => rfl
  | token slot rest ih =>
      obtain ⟨hslot, hrest⟩ := h
      rw [Outline.slots, List.map_cons, List.cons_append, fromCloser_of_not_bracket inner hslot]
      exact ih inner hrest tokens
  | pair delimiter opener inside closer rest ihinside ihrest =>
      obtain ⟨hpair, -, -, hinside, hrest⟩ := h
      obtain ⟨hcloser, hclosed⟩ := TokenKind.isCloser_of_closer? hpair
      have hopener : opener.token.kind.closer?.isSome := Option.isSome_of_eq_some hpair
      simp only [Outline.slots, List.map_cons, List.map_append, List.cons_append, List.append_assoc]
      rw [fromCloser_opener inner hopener, ihinside _ hinside, fromCloser_closer hcloser hclosed]
      exact ihrest inner hrest tokens

end Token

/-! ### The frame of a place in an outline -/

namespace Outline

@[simp] theorem append_nil (o : Outline) : o ++ nil = o := by
  induction o with
  | nil => rfl
  | token slot rest ih => rw [token_append, ih]
  | pair delimiter opener inside closer rest _ ih => rw [pair_append, ih]

theorem length_pairs {o : Outline} (h : o.WellFormed) :
    o.pairs.length = o.slots.countP (·.kind.isCloser) := by
  induction o with
  | nil => rfl
  | token slot rest ih =>
      obtain ⟨hslot, hrest⟩ := h
      obtain ⟨-, hcloser⟩ := Bool.or_eq_false_iff.mp hslot
      rw [pairs, slots, List.countP_cons_of_neg (by simp [hcloser]), ih hrest]
  | pair delimiter opener inside closer rest ihinside ihrest =>
      obtain ⟨hpair, -, -, hinside, hrest⟩ := h
      have hopener := TokenKind.isCloser_of_opener (Option.isSome_of_eq_some hpair)
      have hcloser := (TokenKind.isCloser_of_closer? hpair).1
      rw [pairs, slots, List.countP_cons_of_neg (by simp [hopener]), List.countP_append,
        List.countP_cons, if_pos hcloser, List.length_append, List.length_cons, ihinside hinside, ihrest hrest]

/-- The innermost pair of brackets around a place of an outline, `before` and `behind` being the tokens on its
two sides. -/
structure Frame (o : Outline) (before behind : List Slot) where
  delimiter : Delimiter
  opener : Slot
  /-- What stands between the opening bracket and the place. -/
  first : Outline
  /-- What stands between the place and the closing bracket. -/
  second : Outline
  closer : Slot
  outside : List Slot
  later : List Slot
  earlierPairs : List (Delimiter × Slot)
  laterPairs : List (Delimiter × Slot)
  before_eq : before = outside ++ opener :: first.slots
  behind_eq : behind = second.slots ++ closer :: later
  wellFormed : (pair delimiter opener (first ++ second) closer nil).WellFormed
  pairs_eq : o.pairs = earlierPairs ++ (delimiter, closer) :: laterPairs
  length_laterPairs : laterPairs.length = later.countP (·.kind.isCloser)

/-- A place is in a frame, or it is between two outlines. -/
theorem cut {o : Outline} (h : o.WellFormed) {before behind : List Slot} (hslots : o.slots = before ++ behind) :
    (∃ first second, o = first ++ second ∧ before = first.slots ∧ behind = second.slots) ∨
      Nonempty (o.Frame before behind) := by
  induction o generalizing before behind with
  | nil =>
      obtain ⟨rfl, rfl⟩ := List.append_eq_nil_iff.mp hslots.symm
      exact .inl ⟨nil, nil, rfl, rfl, rfl⟩
  | token slot rest ih =>
      cases before with
      | nil => exact .inl ⟨nil, _, rfl, rfl, hslots.symm⟩
      | cons _ before =>
          obtain ⟨rfl, hrest⟩ := List.cons.inj hslots
          obtain ⟨first, second, rfl, rfl, rfl⟩ | ⟨⟨frame⟩⟩ := ih h.2 hrest
          · exact .inl ⟨token slot first, second, rfl, rfl, rfl⟩
          · exact .inr ⟨{ frame with
              outside := slot :: frame.outside
              before_eq := congrArg (slot :: ·) frame.before_eq }⟩
  | pair delimiter opener inside closer rest ihinside ihrest =>
      obtain ⟨hpair, hdelimiter, hspaced, hinside, hrest⟩ := h
      cases before with
      | nil => exact .inl ⟨nil, _, rfl, rfl, hslots.symm⟩
      | cons _ before =>
          obtain ⟨rfl, hinner⟩ := List.cons.inj hslots
          have hlength := length_pairs hrest
          -- the place is before the closing bracket, or behind it
          rcases List.append_eq_append_iff.mp hinner with ⟨passed, rfl, hpassed⟩ | ⟨left, hleft, rfl⟩
          · cases passed with
            | nil =>
                refine .inr ⟨⟨delimiter, opener, inside, nil, closer, [], rest.slots, inside.pairs, rest.pairs,
                  by simp, hpassed.symm, ⟨hpair, hdelimiter, ?_, ?_, trivial⟩, rfl, hlength⟩⟩
                · rw [append_nil]
                  exact hspaced
                · rw [append_nil]
                  exact hinside
            | cons _ passed =>
                obtain ⟨rfl, hbehind⟩ := List.cons.inj hpassed
                obtain ⟨first, second, rfl, rfl, rfl⟩ | ⟨⟨frame⟩⟩ := ihrest hrest hbehind
                · exact .inl ⟨pair delimiter opener inside closer first, second, rfl, rfl, rfl⟩
                · exact .inr ⟨{ frame with
                    outside := opener :: (inside.slots ++ closer :: frame.outside)
                    before_eq := by simp [← frame.before_eq]
                    earlierPairs := inside.pairs ++ (delimiter, closer) :: frame.earlierPairs
                    pairs_eq := by simp [pairs, frame.pairs_eq] }⟩
          · obtain ⟨first, second, rfl, rfl, rfl⟩ | ⟨⟨frame⟩⟩ := ihinside hinside hleft
            · exact .inr ⟨⟨delimiter, opener, first, second, closer, [], rest.slots, (first ++ second).pairs,
                rest.pairs, rfl, rfl, ⟨hpair, hdelimiter, hspaced, hinside, trivial⟩, rfl, hlength⟩⟩
            · exact .inr ⟨{ frame with
                outside := opener :: frame.outside
                before_eq := congrArg (opener :: ·) frame.before_eq
                later := frame.later ++ closer :: rest.slots
                behind_eq := by simp [frame.behind_eq]
                laterPairs := frame.laterPairs ++ (delimiter, closer) :: rest.pairs
                pairs_eq := by simp [pairs, frame.pairs_eq]
                length_laterPairs := by
                  simp [frame.length_laterPairs, hlength, (TokenKind.isCloser_of_closer? hpair).1] }⟩

namespace Frame

variable {o : Outline} {before behind : List Slot}

/-- Behind a place the closing bracket of its frame is the first that closes no bracket opened there. -/
theorem fromCloser_eq (frame : o.Frame before behind) :
    Token.fromCloser 0 (behind.map (·.token)) = (frame.closer :: frame.later).map (·.token) := by
  obtain ⟨hpair, -, -, hinside, -⟩ := frame.wellFormed
  obtain ⟨hcloser, hclosed⟩ := TokenKind.isCloser_of_closer? hpair
  calc Token.fromCloser 0 (behind.map (·.token))
      = Token.fromCloser 0 (frame.second.slots.map (·.token) ++ (frame.closer :: frame.later).map (·.token)) := by
        rw [← List.map_append, ← frame.behind_eq]
    _ = Token.fromCloser 0 ((frame.closer :: frame.later).map (·.token)) :=
        Token.fromCloser_outline 0 ((wellFormed_append _ _).mp hinside).2 _
    _ = _ := Token.fromCloser_zero hcloser hclosed

theorem enclosing?_eq (frame : o.Frame before behind) :
    Token.enclosing? (behind.map (·.token)) = some frame.closer.token := by
  rw [Token.enclosing?, frame.fromCloser_eq]
  rfl

theorem mem_pairs (frame : o.Frame before behind) : (frame.delimiter, frame.closer) ∈ o.pairs := by
  rw [frame.pairs_eq]
  exact List.mem_append_right _ List.mem_cons_self

end Frame

theorem exists_frame {o : Outline} (h : o.WellFormed) {before behind : List Slot}
    (hslots : o.slots = before ++ behind) {closer : Token}
    (henclosing : Token.enclosing? (behind.map (·.token)) = some closer) :
    ∃ frame : o.Frame before behind, frame.closer.token = closer := by
  obtain ⟨first, second, rfl, rfl, rfl⟩ | ⟨⟨frame⟩⟩ := cut h hslots
  · have hnone := Token.fromCloser_outline 0 ((wellFormed_append _ _).mp h).2 []
    rw [List.append_nil] at hnone
    rw [Token.enclosing?, hnone] at henclosing
    cases henclosing
  · exact ⟨frame, Option.some.inj (frame.enclosing?_eq.symm.trans henclosing)⟩

end Outline

/-! ### Lists of a tree -/

/-- The token ends a list of expressions of the tree: the arguments of a call, the elements of an array, the
entries of an object or an index. -/
def Node.endsList (root : Node) (token : Token) : Bool :=
  root.preorder.any fun n => n.kind.isExpressionList && n.span.stop = token.span.stop

theorem Slot.Ordered.pairwise_stop {p stop : Position} {slots : List Slot} (h : Slot.Ordered p stop slots) :
    slots.Pairwise fun a b => a.token.span.stop.offset < b.token.span.stop.offset := by
  induction slots generalizing p with
  | nil => exact .nil
  | cons slot slots ih =>
      obtain ⟨-, -, -, hlater⟩ := h
      refine List.pairwise_cons.mpr ⟨fun later hmem => ?_, ih hlater⟩
      have hplace := hlater.of_mem hmem
      omega

namespace Outline

theorem pairs_sublist (o : Outline) : (o.pairs.map (·.2)).Sublist o.slots := by
  induction o with
  | nil => exact .slnil
  | token slot rest ih => exact ih.cons slot
  | pair delimiter opener inside closer rest ihinside ihrest =>
      rw [pairs, List.map_append, List.map_cons, slots]
      exact (ihinside.append (ihrest.cons_cons closer)).cons opener

theorem endsList_closer {o : Outline} {root : Node} (hbrackets : root.brackets = o.brackets)
    (hordered : o.slots.Pairwise fun a b => a.token.span.stop.offset < b.token.span.stop.offset) :
    ∀ pair ∈ o.pairs, root.endsList pair.2.token = pair.1.expressionList := by
  rintro ⟨delimiter, closer⟩ hpair
  have hunique : ∀ other ∈ o.pairs, other.2.token.span.stop = closer.token.span.stop →
      other = (delimiter, closer) := by
    intro other hother
    have hclosers := List.pairwise_map.mp (hordered.sublist o.pairs_sublist)
    refine List.Pairwise.forall_of_forall_of_flip
      (R := fun a b : Delimiter × Slot => a.2.token.span.stop = b.2.token.span.stop → a = b)
      (fun _ _ _ => rfl) ?_ ?_ hother hpair
    · exact hclosers.imp fun hlt heq => absurd hlt (by rw [heq]; exact Nat.lt_irrefl _)
    · exact hclosers.imp fun hlt heq => absurd hlt (by rw [heq]; exact Nat.lt_irrefl _)
  have hends : root.endsList closer.token ↔
      ∃ other, other.expressionList ∧ (other, some closer.token.span.stop) ∈ o.brackets := by
    rw [← hbrackets, Node.mem_brackets]
    simp [Node.endsList]
  rw [Bool.eq_iff_iff, hends]
  constructor
  · rintro ⟨other, hlist, hmem⟩
    obtain ⟨⟨_, closer'⟩, hother, heq⟩ := List.mem_map.mp hmem
    obtain ⟨rfl, hstop⟩ := Prod.mk.inj heq
    rw [if_pos hlist] at hstop
    cases hunique _ hother (Option.some.inj hstop)
    exact hlist
  · intro hlist
    refine ⟨delimiter, hlist, List.mem_map.mpr ⟨_, hpair, ?_⟩⟩
    rw [Node.bracket, if_pos hlist]

end Outline

end ScriptSyntax
