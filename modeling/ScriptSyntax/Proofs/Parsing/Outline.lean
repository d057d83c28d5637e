import ScriptSyntax.Parsing.State
import ScriptSyntax.Parsing.Form

/-!
Outlines: tokens with the pairs of brackets among them.  Of a pair an outline keeps the delimiter that a parse
is inside of between the brackets.
-/

namespace ScriptSyntax

namespace TokenKind

def isBracket (kind : TokenKind) : Bool := kind.closer?.isSome || kind.isCloser

/-- A line may be broken behind a token of the kind, inside a list. -/
def breaksBehind : TokenKind → Bool
  | newline | leftParen | leftBracket | leftBrace | comma | colon => true
  | kind => kind.operatorForm?.isSome

/-- A line may be broken before a token of the kind, inside a list. -/
def breaksBefore : TokenKind → Bool
  | newline | comma | rightParen | rightBracket | rightBrace => true
  | _ => false

theorem isCloser_of_closer? {opener closer : TokenKind} (h : opener.closer? = some closer) :
    closer.isCloser ∧ closer.closer? = none := by
  unfold closer? at h
  split at h <;> cases h
  all_goals exact ⟨rfl, rfl⟩

theorem breaksBefore_of_closer? {opener closer : TokenKind} (h : opener.closer? = some closer) :
    closer.breaksBefore ∧ closer ≠ .newline := by
  unfold closer? at h
  split at h <;> cases h
  all_goals exact ⟨rfl, nofun⟩

theorem isCloser_of_opener {opener : TokenKind} (h : opener.closer?.isSome) : opener.isCloser = false := by
  cases opener <;> first | rfl | exact absurd h Bool.false_ne_true

end TokenKind

/-- The kinds of the tokens of a list from its opening bracket to its closing one, without those inside further
brackets.  A line is broken only at a token that allows it, and a colon stands between a key and its value. -/
inductive Spaced : List TokenKind → Prop where
  | nil : Spaced []
  | token {kind : TokenKind} {kinds : List TokenKind} (hnewline : kind ≠ .newline) (hcolon : kind ≠ .colon)
      (hrest : Spaced kinds) : Spaced (kind :: kinds)
  | key {kinds : List TokenKind} (hrest : Spaced kinds) : Spaced (.string :: .colon :: kinds)
  | keyBroken {kinds : List TokenKind} (hrest : Spaced (.string :: .colon :: kinds)) :
      Spaced (.string :: .colon :: .newline :: kinds)
  | behind {kind : TokenKind} {kinds : List TokenKind} (hkind : kind.breaksBehind)
      (hrest : Spaced (kind :: kinds)) : Spaced (kind :: .newline :: kinds)
  | before {kind : TokenKind} {kinds : List TokenKind} (hkind : kind.breaksBefore)
      (hrest : Spaced (kind :: kinds)) : Spaced (.newline :: kind :: kinds)

namespace Spaced

variable {kind : TokenKind} {first kinds rest : List TokenKind}

theorem append (hfirst : Spaced first) (h : Spaced kinds) : Spaced (first ++ kinds) := by
  induction hfirst with
  | nil => exact h
  | token hnewline hcolon _ ih => exact .token hnewline hcolon ih
  | key _ ih => exact .key ih
  | keyBroken _ ih => exact .keyBroken ih
  | behind hkind _ ih => exact .behind hkind ih
  | before hkind _ ih => exact .before hkind ih

theorem singleton (hnewline : kind ≠ .newline) (hcolon : kind ≠ .colon) : Spaced [kind] :=
  .token hnewline hcolon .nil

theorem behind_newlines (hkind : kind.breaksBehind) (count : Nat) (h : Spaced (kind :: kinds)) :
    Spaced (kind :: (List.replicate count .newline ++ kinds)) := by
  induction count with
  | zero => exact h
  | succ count ih => exact .behind hkind ih

theorem before_newlines (hkind : kind.breaksBefore) (count : Nat) (h : Spaced (kind :: kinds)) :
    Spaced (List.replicate count .newline ++ kind :: kinds) := by
  induction count with
  | zero => exact h
  | succ count ih =>
      cases count with
      | zero => exact .before hkind ih
      | succ count => exact .before rfl ih

theorem key_newlines (count : Nat) (h : Spaced kinds) :
    Spaced (.string :: .colon :: (List.replicate count .newline ++ kinds)) := by
  induction count with
  | zero => exact .key h
  | succ count ih => exact .keyBroken ih

section
variable {opener closer : TokenKind} (h : opener.closer? = some closer)
include h

theorem brackets : Spaced [opener, closer] := by
  unfold TokenKind.closer? at h
  split at h <;> cases h
  all_goals exact .token nofun nofun (.singleton nofun nofun)

theorem list (count : Nat) (hinside : Spaced kinds) :
    Spaced (opener :: (List.replicate count .newline ++ kinds)) := by
  unfold TokenKind.closer? at h
  split at h <;> cases h
  all_goals exact .behind_newlines rfl count (.token nofun nofun hinside)

end

theorem breaksBefore_of_newline (h : Spaced (.newline :: kind :: kinds)) : kind.breaksBefore := by
  cases h with
  | token hnewline => exact absurd rfl hnewline
  | behind => rfl
  | before hkind => exact hkind

theorem breaks {last next : TokenKind} (h : Spaced kinds)
    (hkinds : kinds = first ++ last :: .newline :: next :: rest) : last.breaksBehind ∨ next.breaksBefore := by
  induction h generalizing first with
  | nil => simp at hkinds
  | token _ _ hrest ih =>
      cases first with
      | nil =>
          obtain ⟨rfl, rfl⟩ := List.cons.inj hkinds
          exact .inr hrest.breaksBefore_of_newline
      | cons _ first =>
          obtain ⟨-, hkinds⟩ := List.cons.inj hkinds
          exact ih hkinds
  | key _ ih =>
      rcases first with _ | ⟨_, _ | ⟨_, first⟩⟩
      · cases hkinds
      · cases hkinds
        exact .inl rfl
      · simp only [List.cons_append, List.cons.injEq] at hkinds
        exact ih hkinds.2.2
  | keyBroken _ ih =>
      rcases first with _ | ⟨_, _ | ⟨_, _ | ⟨_, first⟩⟩⟩
      · cases hkinds
      · cases hkinds
        exact .inl rfl
      · cases hkinds
        exact .inl rfl
      · simp only [List.cons_append, List.cons.injEq] at hkinds
        obtain ⟨-, -, -, rfl⟩ := hkinds
        exact @ih (.string :: .colon :: first) rfl
  | @behind kind _ hkind _ ih =>
      rcases first with _ | ⟨_, _ | ⟨_, first⟩⟩
      · cases hkinds
        exact .inl hkind
      · cases hkinds
        exact .inl rfl
      · simp only [List.cons_append, List.cons.injEq] at hkinds
        obtain ⟨-, -, rfl⟩ := hkinds
        exact @ih (kind :: first) rfl
  | before _ _ ih =>
      cases first with
      | nil =>
          cases hkinds
          exact .inl rfl
      | cons _ first =>
          obtain ⟨-, hkinds⟩ := List.cons.inj hkinds
          exact ih hkinds

end Spaced

/-- Tokens with the pairs of brackets among them. -/
inductive Outline where
  | nil
  | token (slot : Slot) (rest : Outline)
  | pair (delimiter : Delimiter) (opener : Slot) (inside : Outline) (closer : Slot) (rest : Outline)

/-- The brackets hold items with commas between them, or an index. -/
def Delimiter.isList (delimiter : Delimiter) : Bool :=
  delimiter.expressionList || delimiter.closer ≠ .rightBrace

namespace Outline

def append : Outline → Outline → Outline
  | nil, o => o
  | token slot rest, o => token slot (rest.append o)
  | pair delimiter opener inside closer rest, o => pair delimiter opener inside closer (rest.append o)

instance : Append Outline := ⟨append⟩

/-- Tokens that are no brackets. -/
def ofSlots (slots : List Slot) : Outline := slots.foldr token nil

def slots : Outline → List Slot
  | nil => []
  | token slot rest => slot :: rest.slots
  | pair _ opener inside closer rest => opener :: (inside.slots ++ closer :: rest.slots)

/-- The kinds of the tokens outside of the brackets, and those of the brackets. -/
def surface : Outline → List TokenKind
  | nil => []
  | token slot rest => slot.kind :: rest.surface
  | pair _ opener _ closer rest => opener.kind :: closer.kind :: rest.surface

/-- The pairs in the order in which they are closed, each with the bracket that closes it. -/
def pairs : Outline → List (Delimiter × Slot)
  | nil => []
  | token _ rest => rest.pairs
  | pair delimiter _ inside closer rest => inside.pairs ++ (delimiter, closer) :: rest.pairs

/-- The comments between expressions of a list; those outside of the brackets are in a list if `inList` is
true. -/
def comments (inList : Bool) : Outline → List Span
  | nil => []
  | token slot rest => (if inList then slot.commentBefore.toList else []) ++ rest.comments inList
  | pair delimiter _ inside _ rest => inside.comments delimiter.expressionList ++ rest.comments inList

/-- The brackets of each pair belong together, and lists are spaced as they should be. -/
def WellFormed : Outline → Prop
  | nil => True
  | token slot rest => slot.kind.isBracket = false ∧ rest.WellFormed
  | pair delimiter opener inside closer rest =>
      opener.kind.closer? = some closer.kind ∧ delimiter.closer = closer.kind ∧
        (delimiter.isList → Spaced (opener.kind :: (inside.surface ++ [closer.kind]))) ∧
          inside.WellFormed ∧ rest.WellFormed

@[simp] theorem nil_append (o : Outline) : nil ++ o = o := rfl

@[simp] theorem token_append (slot : Slot) (rest o : Outline) :
    token slot rest ++ o = token slot (rest ++ o) := rfl

@[simp] theorem pair_append (delimiter : Delimiter) (opener closer : Slot) (inside rest o : Outline) :
    pair delimiter opener inside closer rest ++ o = pair delimiter opener inside closer (rest ++ o) := rfl

@[simp] theorem slots_append (o o' : Outline) : (o ++ o').slots = o.slots ++ o'.slots := by
  induction o with
  | nil => rfl
  | token slot rest ih => simp [slots, ih]
  | pair delimiter opener inside closer rest _ ih => simp [slots, ih]

/-- Every pair is followed by what follows its closing bracket, and follows what its opening bracket follows. -/
theorem head?_surface (o : Outline) : o.surface.head? = o.slots.head?.map Slot.kind := by
  cases o <;> rfl

theorem getLast?_surface (o : Outline) : o.surface.getLast? = o.slots.getLast?.map Slot.kind := by
  induction o with
  | nil => rfl
  | token slot rest ih =>
      rw [surface, slots, List.getLast?_cons, List.getLast?_cons, ih]
      cases rest.slots.getLast? <;> rfl
  | pair delimiter opener inside closer rest _ ih =>
      rw [surface, slots, List.getLast?_cons, List.getLast?_cons, List.getLast?_cons, ih, List.getLast?_append,
        List.getLast?_cons]
      cases rest.slots.getLast? <;> rfl

@[simp] theorem surface_append (o o' : Outline) : (o ++ o').surface = o.surface ++ o'.surface := by
  induction o with
  | nil => rfl
  | token slot rest ih => simp [surface, ih]
  | pair delimiter opener inside closer rest _ ih => simp [surface, ih]

@[simp] theorem pairs_append (o o' : Outline) : (o ++ o').pairs = o.pairs ++ o'.pairs := by
  induction o with
  | nil => rfl
  | token slot rest ih => simp [pairs, ih]
  | pair delimiter opener inside closer rest _ ih => simp [pairs, ih]

@[simp] theorem comments_append (inList : Bool) (o o' : Outline) :
    (o ++ o').comments inList = o.comments inList ++ o'.comments inList := by
  induction o with
  | nil => rfl
  | token slot rest ih => simp [comments, ih]
  | pair delimiter opener inside closer rest _ ih => simp [comments, ih]

@[simp] theorem wellFormed_append (o o' : Outline) :
    (o ++ o').WellFormed ↔ o.WellFormed ∧ o'.WellFormed := by
  induction o with
  | nil => simp [WellFormed]
  | token slot rest ih => simp [WellFormed, ih, and_assoc]
  | pair delimiter opener inside closer rest _ ih => simp [WellFormed, ih, and_assoc]

@[simp] theorem surface_ofSlots (slots : List Slot) : (ofSlots slots).surface = slots.map (·.kind) := by
  induction slots with
  | nil => rfl
  | cons slot slots ih => exact congrArg (slot.kind :: ·) ih

@[simp] theorem pairs_ofSlots (slots : List Slot) : (ofSlots slots).pairs = [] := by
  induction slots with
  | nil => rfl
  | cons slot slots ih => exact ih

end Outline

end ScriptSyntax
