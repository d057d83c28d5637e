import Mathlib.Data.List.Induction
import ScriptSyntax.Proofs.Parsing.Loop
import ScriptSyntax.Proofs.Parsing.Whole

/-!
Where the recovery from a broken statement ends.  The closers owed behind the mark and those owed by the tokens
skipped come from one scan, `State.skipsTo_pastBroken`, and each brace owed in that scan is a brace that is open
when braces are matched among themselves, `Bracket.opens_owed`.
-/

namespace ScriptSyntax

namespace Bracket

/-- Each brace among the kinds is matched by another one of them. -/
inductive Braced : List TokenKind → Prop where
  | nil : Braced []
  | other {kind : TokenKind} (hopener : kind ≠ .leftBrace) (hcloser : kind ≠ .rightBrace) : Braced [kind]
  | append {first second : List TokenKind} (hfirst : Braced first) (hsecond : Braced second) :
      Braced (first ++ second)
  | braces {inner : List TokenKind} (hinner : Braced inner) :
      Braced (.leftBrace :: inner ++ [.rightBrace])

/-- At least `n` opening braces among the kinds are not matched by closing ones. -/
inductive Opens : Nat → List TokenKind → Prop where
  | any (kinds : List TokenKind) : Opens 0 kinds
  | brace {n : Nat} {outer inner : List TokenKind} (houter : Opens n outer) (hinner : Braced inner) :
      Opens (n + 1) (outer ++ .leftBrace :: inner)

namespace Opens

variable {n : Nat} {kinds : List TokenKind}

theorem pred (h : Opens (n + 1) kinds) : Opens n kinds := by
  induction n generalizing kinds with
  | zero => exact .any kinds
  | succ n ih =>
      cases h with
      | brace houter hinner => exact .brace (ih houter) hinner

theorem mono {m : Nat} (h : Opens n kinds) (hle : m ≤ n) : Opens m kinds := by
  induction hle with
  | refl => exact h
  | step _ ih => exact ih h.pred

theorem leftBrace (h : Opens n kinds) : Opens (n + 1) (kinds ++ [.leftBrace]) :=
  .brace h .nil

theorem rightBrace (h : Opens n kinds) : Opens (n - 1) (kinds ++ [.rightBrace]) := by
  cases h with
  | any => exact .any _
  | @brace n outer inner houter hinner =>
      cases houter with
      | any => exact .any _
      | @brace n outermost middle houtermost hmiddle =>
          have hclosed : Braced (middle ++ (.leftBrace :: inner ++ [.rightBrace])) := hmiddle.append hinner.braces
          simpa using houtermost.brace hclosed

theorem other {kind : TokenKind} (h : Opens n kinds) (hopener : kind ≠ .leftBrace)
    (hcloser : kind ≠ .rightBrace) : Opens n (kinds ++ [kind]) := by
  cases h with
  | any => exact .any _
  | brace houter hinner => simpa using houter.brace (hinner.append (.other hopener hcloser))

end Opens

theorem owed_append_singleton (kinds : List TokenKind) (kind : TokenKind) :
    owed (kinds ++ [kind]) = next (owed kinds) kind := by
  rw [owed, List.foldl_append]
  rfl

theorem count_next_le {kind : TokenKind} (hkind : kind ≠ .leftBrace) (owed : List TokenKind) :
    (next owed kind).count .rightBrace ≤ owed.count .rightBrace := by
  unfold next
  split
  · rename_i closer hcloser
    have hother : closer ≠ .rightBrace := by
      rintro rfl
      cases kind <;> simp [TokenKind.closer?] at hcloser hkind
    exact Nat.le_of_eq (List.count_cons_of_ne hother)
  · split
    · exact ((List.tail_sublist _).trans (List.dropWhile_sublist _)).count_le _
    · exact Nat.le_refl _

theorem count_next_rightBrace (owed : List TokenKind) :
    (next owed .rightBrace).count .rightBrace = owed.count .rightBrace - 1 := by
  by_cases howed : TokenKind.rightBrace ∈ owed
  · obtain ⟨inner, outer, rfl, hinner⟩ := List.eq_append_cons_of_mem howed
    have hkeep : ∀ kind ∈ inner, decide (kind ≠ TokenKind.rightBrace) = true := by
      intro kind hkind
      simpa using ne_of_mem_of_not_mem hkind hinner
    have hnext : next (inner ++ .rightBrace :: outer) .rightBrace = outer := by
      have hcontains : (inner ++ .rightBrace :: outer).contains TokenKind.rightBrace = true := by
        simp
      simp only [next, TokenKind.closer?, TokenKind.isCloser, hcontains, Bool.and_self, if_true]
      rw [List.dropWhile_append_of_pos hkeep]
      simp
    rw [hnext, List.count_append, List.count_cons_self, List.count_eq_zero_of_not_mem hinner]
    omega
  · have hnext : next owed .rightBrace = owed := by simp [next, TokenKind.closer?, howed]
    rw [hnext, List.count_eq_zero_of_not_mem howed]

/-- The braces that are owed are open when braces are matched among themselves: a closer of another bracket
gives up some of them, and opens none. -/
theorem opens_owed (kinds : List TokenKind) : Opens ((owed kinds).count .rightBrace) kinds := by
  induction kinds using List.reverseRecOn with
  | nil => exact .any []
  | append_singleton kinds kind ih =>
      rw [owed_append_singleton]
      by_cases hopener : kind = .leftBrace
      · subst hopener
        simpa [next, TokenKind.closer?] using ih.leftBrace
      · by_cases hcloser : kind = .rightBrace
        · subst hcloser
          rw [count_next_rightBrace]
          exact ih.rightBrace
        · exact (ih.other hopener hcloser).mono (count_next_le hopener _)

theorem exists_of_mem_owed {kinds : List TokenKind} (howed : .rightBrace ∈ owed kinds) :
    ∃ outer inner, kinds = outer ++ .leftBrace :: inner ∧ Braced inner := by
  have hopens := (opens_owed kinds).mono (List.count_pos_iff.mpr howed)
  cases hopens with
  | brace _ hinner => exact ⟨_, _, rfl, hinner⟩

end Bracket

namespace Parser

/-- Recovery ends before a token of the kind that stands behind tokens of the kinds `behind`: at the end of the file,
and where no brace is owed before a separator or, in a block, before a closing brace. -/
def EndsRecovery (inBlock : Bool) (behind : List TokenKind) (kind : TokenKind) : Prop :=
  kind = .endOfFile ∨ .rightBrace ∉ Bracket.owed behind ∧
    (kind.isSeparator = true ∨ inBlock = true ∧ kind = .rightBrace)

theorem endsRecovery_iff {inBlock : Bool} {behind : List TokenKind} {kind : TokenKind}
    (hkind : kind ≠ .endOfFile) :
    EndsRecovery inBlock behind kind ↔ isRecoveryPoint inBlock (Bracket.owed behind) kind = true := by
  simp [EndsRecovery, isRecoveryPoint, hkind]

end Parser

/-- Recovery goes from `s` over the tokens `skipped` to `s'`, the first place where it ends when the tokens `behind`
are those since the mark. -/
structure State.SkipsTo (inBlock : Bool) (behind skipped : List Slot) (s s' : State) : Prop where
  rest : s.rest = skipped ++ s'.rest
  consumed : s'.consumed = s.consumed + skipped.length
  previousEnd : s'.previousEnd = Slot.endAfter s.previousEnd skipped
  ends : Parser.EndsRecovery inBlock ((behind ++ skipped).map (·.kind)) s'.kind
  first : ∀ before slot after, skipped = before ++ slot :: after →
    ¬Parser.EndsRecovery inBlock ((behind ++ before).map (·.kind)) slot.kind

namespace State

variable {inBlock : Bool} {behind skipped : List Slot} {s s' : State}

theorem SkipsTo.cons {slot : Slot} (h : s.advanced.SkipsTo inBlock (behind ++ [slot]) skipped s')
    (hrest : s.rest = slot :: s.advanced.rest)
    (hend : ¬Parser.EndsRecovery inBlock (behind.map (·.kind)) slot.kind) :
    s.SkipsTo inBlock behind (slot :: skipped) s' := by
  have hconsumed : s.advanced.consumed = s.consumed + 1 := by
    unfold advanced
    rw [hrest]
  have hpreviousEnd : s.advanced.previousEnd = slot.token.span.stop := by
    unfold advanced
    rw [hrest]
  constructor
  · rw [hrest, h.rest, List.cons_append]
  · rw [h.consumed, hconsumed, List.length_cons]
    omega
  · rw [h.previousEnd, hpreviousEnd]
    rfl
  · simpa using h.ends
  · intro before other after hsplit
    cases before with
    | nil =>
        obtain ⟨rfl, -⟩ := List.cons.inj hsplit
        simpa using hend
    | cons first before =>
        obtain ⟨rfl, hlater⟩ := List.cons.inj hsplit
        simpa using h.first before other after hlater

theorem SkipsTo.nil (hend : Parser.EndsRecovery inBlock (behind.map (·.kind)) s.kind) :
    s.SkipsTo inBlock behind [] s := by
  refine ⟨rfl, rfl, rfl, by simpa using hend, ?_⟩
  intro before slot after hsplit
  simp at hsplit

/-- Recovery ends at the first place where it can, after one scan of the tokens behind and those it skips. -/
theorem skipsTo_pastBroken (inBlock : Bool) (behind : List Slot) (s : State)
    (htokens : ∀ slot ∈ s.rest, slot.kind ≠ .endOfFile) :
    ∃ skipped, s.SkipsTo inBlock behind skipped
      (pastBroken inBlock (Bracket.owed (behind.map (·.kind))) s.rest s) := by
  generalize hslots : s.rest = slots
  induction slots generalizing s behind with
  | nil => exact ⟨[], .nil (.inl (kind_of_nil hslots))⟩
  | cons slot slots ih =>
      have hkind : slot.kind ≠ .endOfFile := htokens slot (by simp [hslots])
      have hrest := rest_advanced hslots
      unfold pastBroken
      split
      · rename_i hpoint
        refine ⟨[], .nil ?_⟩
        rw [kind_of_cons hslots]
        exact (Parser.endsRecovery_iff hkind).mpr hpoint
      · rename_i hpoint
        have hlater : ∀ other ∈ s.advanced.rest, other.kind ≠ .endOfFile :=
          fun other hother => htokens other (s.advances_advanced.rest.subset hother)
        obtain ⟨skipped, hskips⟩ := ih (behind ++ [slot]) s.advanced hlater hrest
        rw [List.map_append, List.map_singleton, Bracket.owed_append_singleton] at hskips
        have hgoesOn := mt (Parser.endsRecovery_iff hkind).mp hpoint
        exact ⟨slot :: skipped, hskips.cons (by rw [hslots, hrest]) hgoesOn⟩

theorem SkipsTo.logged (h : s.SkipsTo inBlock behind skipped s') (event : Event) :
    s.SkipsTo inBlock behind skipped (s'.logged event) :=
  ⟨h.rest, h.consumed, h.previousEnd, h.ends, h.first⟩

theorem SkipsTo.exists_leftBrace (h : s.SkipsTo true behind skipped s') {before after : List Slot} {slot : Slot}
    (hskipped : skipped = before ++ slot :: after) (hslot : slot.kind = .rightBrace) :
    ∃ outer inner, (behind ++ before).map (·.kind) = outer ++ .leftBrace :: inner ∧ Bracket.Braced inner := by
  apply Bracket.exists_of_mem_owed
  by_contra howed
  exact h.first before slot after hskipped (.inr ⟨howed, .inr ⟨rfl, hslot⟩⟩)

theorem SkipsTo.spanSince {mark : Mark} (h : s.SkipsTo inBlock behind skipped s')
    (hmark : mark.slots = behind ++ s.rest) (hindex : s.consumed = mark.index + behind.length) {opening last : Slot}
    (hopening : (behind ++ skipped).head? = some opening) (hlast : skipped.getLast? = some last) :
    s'.spanSince mark = ⟨opening.token.span.start, last.token.span.stop⟩ := by
  obtain ⟨earlier, rfl⟩ := List.getLast?_eq_some_iff.mp hlast
  obtain ⟨later, hsplit⟩ := List.head?_eq_some_iff.mp hopening
  have hslots : mark.slots = opening :: (later ++ s'.rest) := by
    rw [hmark, h.rest, ← List.append_assoc, hsplit, List.cons_append]
  have hconsumed : mark.index < s'.consumed := by
    have hsum := h.consumed
    rw [List.length_append, List.length_singleton] at hsum
    omega
  have hend : s'.previousEnd = last.token.span.stop := by
    rw [h.previousEnd, Slot.endAfter_append]
    rfl
  simp only [State.spanSince, hslots, if_pos hconsumed, spanFrom, hend]

end State

/-- From every state and every mark at or behind it, recovery ends at the first place where it can: at the end of the
file, or where no brace is owed by the tokens since the mark before a separator or, in a block, a closing brace.  In a
block it skips no closing brace but that of a brace opened since the mark, and the node that it gives for tokens that
it skips spans all tokens since the mark.  The end of the file is not one of the tokens left in any state of a parse. -/
theorem Parser.recover_ends_first {s : State} {mark : Mark} {behind : List Slot} (inBlock : Bool)
    (hmark : mark.slots = behind ++ s.rest) (hindex : s.consumed = mark.index + behind.length)
    (htokens : ∀ slot ∈ s.rest, slot.kind ≠ .endOfFile) :
    ∃ span s' skipped, recover mark inBlock s = .ok (Node.error span []) s' ∧
      s.SkipsTo inBlock behind skipped s' ∧
      (inBlock = true → ∀ before slot after, skipped = before ++ slot :: after → slot.kind = .rightBrace →
        ∃ outer inner, (behind ++ before).map (·.kind) = outer ++ .leftBrace :: inner ∧ Bracket.Braced inner) ∧
      ∀ opening last, (behind ++ skipped).head? = some opening → skipped.getLast? = some last →
        span = ⟨opening.token.span.start, last.token.span.stop⟩ := by
  have hbehind : mark.slots.take (s.consumed - mark.index) = behind := by
    rw [hmark, hindex, Nat.add_sub_cancel_left, List.take_left]
  obtain ⟨skipped, hskips⟩ := State.skipsTo_pastBroken inBlock behind s htokens
  have hrecovered : s.SkipsTo inBlock behind skipped (s.recovered mark inBlock) := by
    unfold State.recovered
    rw [hbehind]
    exact hskips.logged _
  refine ⟨_, _, skipped, run_recover mark inBlock s, hrecovered, ?_, ?_⟩
  · rintro rfl before slot after hskipped hslot
    exact hrecovered.exists_leftBrace hskipped hslot
  · intro opening last hopening hlast
    exact hrecovered.spanSince hmark hindex hopening hlast

/-- Behind a bracket that is not closed, recovery in a block goes over a pair of braces with a separator inside and
ends before the brace that closes the block. -/
theorem Parser.recover_over_braces :
    let first := State.ofSource "f(\x7b [1; \x7d ]) \x7d b" {}
    let s := first.advanced.advanced
    let behind := first.rest.take 2
    first.mark.slots = behind ++ s.rest ∧ s.consumed = first.mark.index + behind.length ∧
      (∀ slot ∈ s.rest, slot.kind ≠ .endOfFile) ∧
      (∃ span s' skipped, recover first.mark true s = .ok (Node.error span []) s' ∧
        s.SkipsTo true behind skipped s' ∧
        ∀ opening last, (behind ++ skipped).head? = some opening → skipped.getLast? = some last →
          span = ⟨opening.token.span.start, last.token.span.stop⟩) ∧
      (finalState (recover first.mark true) s).consumed = 9 := by
  intro first s behind
  have hmark : first.mark.slots = behind ++ s.rest := by decide +kernel
  have hindex : s.consumed = first.mark.index + behind.length := by decide +kernel
  have htokens : ∀ slot ∈ s.rest, slot.kind ≠ .endOfFile := by decide +kernel
  obtain ⟨span, s', skipped, hrun, hskips, -, hspan⟩ := recover_ends_first true hmark hindex htokens
  exact ⟨hmark, hindex, htokens, ⟨span, s', skipped, hrun, hskips, hspan⟩, by decide +kernel⟩

end ScriptSyntax
