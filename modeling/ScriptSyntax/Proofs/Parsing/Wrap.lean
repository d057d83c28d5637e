import ScriptSyntax.Proofs.Parsing.Openings
import ScriptSyntax.Proofs.Parsing.Outline
import ScriptSyntax.Proofs.Parsing.Runs

/-!
States whose tokens are the same but for one line break, which stands where a list may be broken.  They stay
so while the same tokens are consumed, and where newlines are skipped the break is skipped with them.
-/

namespace ScriptSyntax

/-! ### Places between tokens -/

/-- What stands before a place between two tokens, as far as a line break there matters. -/
inductive Edge where
  /-- The scheme of an import and its colon, and perhaps names of the path. -/
  | path
  /-- Any other name. -/
  | name
  /-- A token that no line of a list ends with. -/
  | shut
  /-- A token that a line of a list may end with. -/
  | free
deriving DecidableEq, Repr

namespace Edge

/-- The place behind a token of the kind. -/
def past (edge : Edge) : TokenKind → Edge
  | .identifier => if edge = path then path else name
  | .dot => if edge = path then path else free
  | .colon => if edge = path ∨ edge = name then path else free
  | kind => if kind.breaksBehind then free else shut

/-- The place behind tokens of the kinds. -/
def pastAll (edge : Edge) (kinds : List TokenKind) : Edge := kinds.foldl past edge

/-- Places in the order of the breaks that they and those behind them allow. -/
def rank : Edge → Nat
  | path => 0
  | name => 1
  | shut => 2
  | free => 3

instance : LE Edge := ⟨fun edge edge' => edge.rank ≤ edge'.rank⟩

variable {edge edge' : Edge}

theorem le_refl (edge : Edge) : edge ≤ edge := Nat.le_refl edge.rank

theorem path_le (edge : Edge) : path ≤ edge := Nat.zero_le edge.rank

theorem le_free (edge : Edge) : edge ≤ free := by
  cases edge <;> exact Nat.le_of_ble_eq_true rfl

theorem eq_path_of_le (h : edge ≤ path) : edge = path := by
  cases edge with
  | path => rfl
  | _ => exact absurd h (Nat.not_le_of_lt (Nat.le_of_ble_eq_true rfl))

theorem eq_free_of_le (h : free ≤ edge) : edge = free := by
  cases edge with
  | free => rfl
  | _ => exact absurd h (Nat.not_le_of_lt (Nat.le_of_ble_eq_true rfl))

theorem past_mono (h : edge ≤ edge') (kind : TokenKind) : edge.past kind ≤ edge'.past kind := by
  cases kind with
  | identifier | dot | colon =>
      cases edge' with
      | path =>
          obtain rfl := eq_path_of_le h
          exact le_refl _
      | name =>
          cases edge with
          | path | name => exact Nat.le_of_ble_eq_true rfl
          | shut | free => exact absurd h (Nat.not_le_of_lt (Nat.le_of_ble_eq_true rfl))
      | shut | free => cases edge <;> exact Nat.le_of_ble_eq_true rfl
  | _ => exact le_refl _

theorem past_le_shut (edge : Edge) (kind : TokenKind) : edge.past kind ≤ shut.past kind := by
  cases kind with
  | identifier | dot | colon => cases edge <;> exact Nat.le_of_ble_eq_true rfl
  | _ => exact le_refl _

theorem past_le (edge : Edge) {kind : TokenKind} (h : kind.breaksBehind = false) :
    edge.past kind ≤ .shut := by
  refine Nat.le_trans (past_le_shut edge kind) ?_
  unfold past
  split
  · exact Nat.le_of_ble_eq_true rfl
  · cases h
  · cases h
  · rw [h]
    exact Nat.le_refl _

theorem past_of_breaksBehind {kind : TokenKind} (h : kind.breaksBehind) (hpath : edge.past kind ≠ path) :
    edge.past kind = free := by
  unfold past at hpath ⊢
  split at hpath
  · cases h
  · rw [if_neg fun hedge => hpath (if_pos hedge)]
  · rw [if_neg fun hedge => hpath (if_pos hedge)]
  · rw [if_pos h]

theorem past_ne_path {kind : TokenKind} (hedge : edge ≠ path) (hcolon : kind ≠ .colon) :
    edge.past kind ≠ path := by
  unfold past
  split
  · rw [if_neg hedge]
    exact nofun
  · rw [if_neg hedge]
    exact nofun
  · exact absurd rfl hcolon
  · split <;> exact nofun

theorem past_opener {opener closer : TokenKind} (h : opener.closer? = some closer) (edge : Edge) :
    edge.past opener = free := by
  unfold TokenKind.closer? at h
  split at h <;> cases h
  all_goals rfl

theorem past_closer {opener closer : TokenKind} (h : opener.closer? = some closer) {edge : Edge} :
    edge.past closer = shut := by
  unfold TokenKind.closer? at h
  split at h <;> cases h
  all_goals rfl

theorem pastAll_mono (h : edge ≤ edge') (kinds : List TokenKind) :
    edge.pastAll kinds ≤ edge'.pastAll kinds := by
  induction kinds generalizing edge edge' with
  | nil => exact h
  | cons kind kinds ih => exact ih (past_mono h kind)

end Edge

/-! ### One line break more -/

/-- The token without its place. -/
def Token.word (token : Token) : TokenKind × String := (token.kind, token.text)

def Slot.word (slot : Slot) : TokenKind × String := slot.token.word

namespace Slot

variable {slots slots' : List Slot} (hwords : slots'.map Slot.word = slots.map Slot.word)
include hwords

theorem head?_word : slots'.head?.map Slot.word = slots.head?.map Slot.word := by
  rw [← List.head?_map, hwords, List.head?_map]

theorem dropWhile_word (p : TokenKind → Bool) :
    (slots'.dropWhile (p ·.kind)).map Slot.word = (slots.dropWhile (p ·.kind)).map Slot.word := by
  have hdrop : ∀ slots : List Slot, (slots.dropWhile (p ·.kind)).map Slot.word =
      (slots.map Slot.word).dropWhile (p ·.1) := by
    intro slots
    rw [List.dropWhile_map]
    rfl
  rw [hdrop, hdrop, hwords]

end Slot

/-- The second tokens are those of the first, with at most one line break more.  It stands where a list may be
broken; `edge` is the place before the tokens. -/
inductive Wraps : Edge → List Slot → List Slot → Prop where
  | same {edge : Edge} {slots slots' : List Slot} (hwords : slots'.map Slot.word = slots.map Slot.word) :
      Wraps edge slots slots'
  | here {edge : Edge} {slots slots' : List Slot} {lineBreak : Slot} (hkind : lineBreak.kind = .newline)
      (hallowed : edge = .free ∨ ∃ slot ∈ slots.head?, slot.kind.breaksBefore)
      (hwords : slots'.map Slot.word = slots.map Slot.word) : Wraps edge slots (lineBreak :: slots')
  | later {edge : Edge} {slot slot' : Slot} {slots slots' : List Slot} (hword : slot'.word = slot.word)
      (hrest : Wraps (edge.past slot.kind) slots slots') : Wraps edge (slot :: slots) (slot' :: slots')

namespace Wraps

variable {edge edge' : Edge} {slots slots' : List Slot}

theorem mono (h : Wraps edge slots slots') (hedge : edge ≤ edge') : Wraps edge' slots slots' := by
  induction h generalizing edge' with
  | same hwords => exact .same hwords
  | here hkind hallowed hwords =>
      refine .here hkind (hallowed.imp_left ?_) hwords
      rintro rfl
      exact Edge.eq_free_of_le hedge
  | later hword _ ih => exact .later hword (ih (Edge.past_mono hedge _))

theorem append {first first' : List Slot} (hfirst : first'.map Slot.word = first.map Slot.word)
    (h : Wraps (edge.pastAll (first.map (·.kind))) slots slots') :
    Wraps edge (first ++ slots) (first' ++ slots') := by
  induction first generalizing first' edge with
  | nil =>
      obtain rfl := List.map_eq_nil_iff.mp hfirst
      exact h
  | cons slot first ih =>
      obtain ⟨slot', first', rfl, hword, hrest⟩ := List.map_eq_cons_iff.mp hfirst
      exact .later hword (ih hrest h)

theorem dropWhile {p : TokenKind → Bool} (hp : p .newline) (h : Wraps edge slots slots') :
    Wraps .shut (slots.dropWhile (p ·.kind)) (slots'.dropWhile (p ·.kind)) ∧
      (slots'.dropWhile (p ·.kind)).head?.map Slot.word =
        (slots.dropWhile (p ·.kind)).head?.map Slot.word := by
  induction h with
  | same hwords =>
      have hdrop := Slot.dropWhile_word hwords p
      exact ⟨.same hdrop, Slot.head?_word hdrop⟩
  | @here _ _ _ lineBreak hkind _ hwords =>
      have hbreak : p lineBreak.kind := by rw [hkind]; exact hp
      have hdrop := Slot.dropWhile_word hwords p
      rw [List.dropWhile_cons, if_pos hbreak]
      exact ⟨.same hdrop, Slot.head?_word hdrop⟩
  | @later edge slot slot' slots slots' hword hrest ih =>
      have hkind : slot'.kind = slot.kind := congrArg Prod.fst hword
      simp only [List.dropWhile_cons, hkind]
      split
      · exact ih
      · exact ⟨.later hword (hrest.mono (edge.past_le_shut slot.kind)), congrArg some hword⟩

end Wraps

namespace State

/-- The tokens left before `t` are those before `s` with at most one line break more, and both states are
equally deep. -/
structure Wraps (s : State) (edge : Edge) (t : State) : Prop where
  rest : ScriptSyntax.Wraps edge s.rest t.rest
  depth : t.depth = s.depth

/-- No line break comes next in the one state alone. -/
structure Meets (s t : State) : Prop extends s.Wraps .shut t where
  word : t.rest.head?.map Slot.word = s.rest.head?.map Slot.word

theorem kind_eq_of_word {s t : State} (h : t.rest.head?.map Slot.word = s.rest.head?.map Slot.word) :
    t.kind = s.kind ∧ t.current.text = s.current.text := by
  unfold kind current slot
  cases hs : s.rest with
  | nil =>
      rw [hs] at h
      have ht : t.rest = [] := by simpa using h
      rw [ht]
      exact ⟨rfl, rfl⟩
  | cons slot slots =>
      rw [hs] at h
      obtain ⟨slot', hslot', hword⟩ := Option.map_eq_some_iff.mp h
      obtain ⟨slots', ht⟩ : ∃ slots', t.rest = slot' :: slots' := List.head?_eq_some_iff.mp hslot'
      rw [ht]
      exact Prod.mk.inj hword

namespace Wraps

variable {s t : State} {edge edge' : Edge} {kind : TokenKind}

theorem mono (h : s.Wraps edge t) (hedge : edge ≤ edge') : s.Wraps edge' t :=
  ⟨h.rest.mono hedge, h.depth⟩

theorem free (h : s.Wraps edge t) : s.Wraps .free t := h.mono edge.le_free

theorem entered (h : s.Wraps edge t) : s.entered.Wraps edge t.entered :=
  ⟨h.rest, congrArg (· + 1) h.depth⟩

theorem leaving {s' t' : State} (h : s'.Wraps edge t') (hdepth : t.depth = s.depth) :
    (s'.leaving s.depth).Wraps edge (t'.leaving t.depth) :=
  ⟨h.rest, hdepth⟩

theorem opened (h : s.Wraps edge t) (closer : TokenKind) (expressionList : Bool) :
    (s.opened closer expressionList).Wraps edge (t.opened closer expressionList) :=
  ⟨h.rest, h.depth⟩

theorem closed (h : s.Wraps edge t) : s.closed.Wraps edge t.closed := ⟨h.rest, h.depth⟩

theorem begun (h : s.Wraps edge t) : s.begun.Wraps edge t.begun := ⟨h.rest, h.depth⟩

theorem next (h : s.Wraps edge t) (hedge : edge ≠ .free) :
    t.rest.head?.map Slot.word = s.rest.head?.map Slot.word ∨
      s.kind.breaksBefore ∧ t.kind = .newline := by
  obtain ⟨hrest, -⟩ := h
  generalize hslots : s.rest = slots at hrest ⊢
  generalize hslots' : t.rest = slots' at hrest ⊢
  cases hrest with
  | same hwords => exact .inl (Slot.head?_word hwords)
  | here hkind hallowed =>
      obtain ⟨slot, hslot, hbreaks⟩ := hallowed.resolve_left hedge
      obtain ⟨slots, rfl⟩ := List.head?_eq_some_iff.mp hslot
      right
      rw [kind_of_cons hslots, kind_of_cons hslots']
      exact ⟨hbreaks, hkind⟩
  | later hword => exact .inl (congrArg some hword)

theorem word (h : s.Wraps edge t) (hedge : edge ≠ .free) (hkind : s.kind.breaksBefore = false) :
    t.rest.head?.map Slot.word = s.rest.head?.map Slot.word := by
  rcases h.next hedge with hword | ⟨hbreaks, -⟩
  · exact hword
  · rw [hkind] at hbreaks
    cases hbreaks

theorem kind_or (h : s.Wraps edge t) (hedge : edge ≠ .free) : t.kind = s.kind ∨ t.kind = .newline :=
  (h.next hedge).imp (fun hword => (kind_eq_of_word hword).1) (·.2)

theorem kind_ne (h : s.Wraps edge t) (hedge : edge ≠ .free) (hkind : s.kind ≠ kind)
    (hnewline : kind ≠ .newline) : t.kind ≠ kind := by
  rcases h.kind_or hedge with hsame | hbreak
  · rw [hsame]
    exact hkind
  · rw [hbreak]
    exact hnewline.symm

theorem advanced (h : s.Wraps edge t) (hword : t.rest.head?.map Slot.word = s.rest.head?.map Slot.word)
    (hnewline : s.kind ≠ .newline) : s.advanced.Wraps (edge.past s.kind) t.advanced := by
  obtain ⟨hrest, hdepth⟩ := h
  refine ⟨?_, by simpa using hdepth⟩
  have hkind := (kind_eq_of_word hword).1
  generalize hslots : s.rest = slots at hrest hword
  generalize hslots' : t.rest = slots' at hrest hword
  cases hrest with
  | @same _ slots slots' hwords =>
      cases slots with
      | nil =>
          obtain rfl := List.map_eq_nil_iff.mp hwords
          rw [State.advanced, hslots, State.advanced, hslots']
          simp only [hslots, hslots']
          exact .same rfl
      | cons slot slots =>
          obtain ⟨slot', slots', rfl, -, hlater⟩ := List.map_eq_cons_iff.mp hwords
          rw [rest_advanced hslots, rest_advanced hslots']
          exact .same hlater
  | here hbreak =>
      rw [kind_of_cons hslots', hbreak] at hkind
      exact absurd hkind.symm hnewline
  | later _ hlater =>
      rw [rest_advanced hslots, rest_advanced hslots', kind_of_cons hslots]
      exact hlater

theorem takes (h : s.Wraps edge t) (hkind : s.kind = kind) (hbreaks : kind.breaksBefore = false)
    (hedge : edge ≠ .free) :
    t.kind = kind ∧ t.current.text = s.current.text ∧ s.advanced.Wraps (edge.past kind) t.advanced := by
  subst hkind
  have hword := h.word hedge hbreaks
  obtain ⟨hsame, htext⟩ := kind_eq_of_word hword
  refine ⟨hsame, htext, h.advanced hword ?_⟩
  intro hnewline
  rw [hnewline] at hbreaks
  cases hbreaks

theorem pastWhile (h : s.Wraps edge t) {p : TokenKind → Bool} (hp : p .newline) :
    (State.pastWhile p s.rest s).Meets (State.pastWhile p t.rest t) := by
  obtain ⟨hwraps, hword⟩ := h.rest.dropWhile hp
  refine ⟨⟨?_, ?_⟩, ?_⟩
  · rw [rest_pastWhile, rest_pastWhile]
    exact hwraps
  · rw [depth_pastWhile, depth_pastWhile, h.depth]
  · rw [rest_pastWhile, rest_pastWhile]
    exact hword

theorem pastNewlines (h : s.Wraps edge t) : s.pastNewlines.Meets t.pastNewlines := h.pastWhile rfl

theorem pastSeparators (h : s.Wraps edge t) : s.pastSeparators.Meets t.pastSeparators := h.pastWhile rfl

end Wraps

namespace Meets

variable {s t : State}

theorem kind (h : s.Meets t) : t.kind = s.kind := (kind_eq_of_word h.word).1

theorem closed (h : s.Meets t) : s.closed.Meets t.closed := ⟨h.toWraps.closed, h.word⟩

theorem advanced (h : s.Meets t) {kind : TokenKind} (hkind : s.kind = kind) (hnewline : kind ≠ .newline) :
    t.kind = kind ∧ s.advanced.Wraps (Edge.shut.past kind) t.advanced := by
  subst hkind
  exact ⟨h.kind, h.toWraps.advanced h.word hnewline⟩

end Meets

theorem Wraps.kindPastNewlines {s t : State} {edge : Edge} (h : s.Wraps edge t) :
    t.kindPastNewlines = s.kindPastNewlines := by
  rw [← kind_pastNewlines, ← kind_pastNewlines, h.pastNewlines.kind]

end State

end ScriptSyntax
