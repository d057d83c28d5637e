import ScriptSyntax.Proofs.Parsing.Rounds

/-!
Statements on a line of their own.  On a line without brackets that no operator ends, no form reads past the
newline, whether it fails or not: `stays_statement`.  What begins with a bracket fails there, and recovery ends
before the newline, so that a parse leaves it behind every statement of the line: `Rounds.onLine`.
-/

namespace ScriptSyntax

open ScriptSyntax.Parser

/-! ### Plain lines -/

/-- The token is no bracket and ends no line. -/
structure Slot.Plain (slot : Slot) : Prop where
  closer? : slot.kind.closer? = none
  isCloser : slot.kind.isCloser = false
  kind_ne : slot.kind ≠ .newline

/-- Plain tokens up to a newline, which stands behind no operator. -/
inductive Slot.Line : List Slot → Prop where
  | lineBreak {slot : Slot} (hkind : slot.kind = .newline) : Line [slot]
  | token {slot next : Slot} {slots : List Slot} (hslot : slot.Plain)
      (hnext : slot.kind.operatorForm?.isSome → next.kind ≠ .newline) (hrest : Line (next :: slots)) :
      Line (slot :: next :: slots)

namespace Slot.Line

variable {slot lineBreak : Slot} {slots later : List Slot}

theorem append (hplain : ∀ slot ∈ slots, slot.Plain)
    (hlast : ∀ slot ∈ slots.getLast?, slot.kind.operatorForm? = none) (hkind : lineBreak.kind = .newline) :
    Line (slots ++ [lineBreak]) := by
  induction slots with
  | nil => exact .lineBreak hkind
  | cons slot slots ih =>
      obtain ⟨hslot, hplain⟩ := List.forall_mem_cons.mp hplain
      cases slots with
      | nil =>
          refine .token hslot ?_ (.lineBreak hkind)
          rw [hlast slot rfl]
          exact nofun
      | cons next slots =>
          refine .token hslot (fun _ => ?_) (ih hplain ?_)
          · exact (hplain next (by simp)).kind_ne
          · rwa [List.getLast?_cons_cons] at hlast

theorem suffix (h : Line slots) (hsuffix : later <:+ slots) (hmore : later ≠ []) : Line later := by
  induction h with
  | lineBreak hkind =>
      rcases List.suffix_cons_iff.mp hsuffix with rfl | hnone
      · exact .lineBreak hkind
      · exact absurd (List.suffix_nil.mp hnone) hmore
  | token hslot hnext hrest ih =>
      rcases List.suffix_cons_iff.mp hsuffix with rfl | hlater
      · exact .token hslot hnext hrest
      · exact ih hlater

theorem endsInNewline (h : Line slots) : ∃ before slot, slots = before ++ [slot] ∧ slot.kind = .newline := by
  induction h with
  | @lineBreak slot hkind => exact ⟨[], slot, rfl, hkind⟩
  | @token slot next slots _ _ _ ih =>
      obtain ⟨before, lineBreak, hslots, hkind⟩ := ih
      exact ⟨slot :: before, lineBreak, by rw [hslots, List.cons_append], hkind⟩

theorem bracketless (h : Line slots) :
    ∀ slot ∈ slots, slot.kind.closer? = none ∧ slot.kind.isCloser = false := by
  induction h with
  | @lineBreak slot hkind => simp [hkind, TokenKind.closer?, TokenKind.isCloser]
  | token hslot _ _ ih => exact List.forall_mem_cons.mpr ⟨⟨hslot.closer?, hslot.isCloser⟩, ih⟩

end Slot.Line

theorem State.kind_ne_newline {α : Type} {s : State} {form? : TokenKind → Option α} {form : α}
    (hform : form? s.kind = some form) (hnone : form? .newline = none) : s.kind ≠ .newline := by
  intro hbreak
  rw [hbreak, hnone] at hform
  cases hform

/-- What is left to read is a plain line. -/
def State.OnLine (s : State) : Prop := Slot.Line s.rest

namespace State.OnLine

variable {s s' : State}

theorem closer?_kind (h : s.OnLine) : s.kind.closer? = none := by
  unfold OnLine at h
  cases hrest : s.rest with
  | nil =>
      rw [kind_of_nil hrest]
      rfl
  | cons slot slots =>
      rw [kind_of_cons hrest]
      exact (h.bracketless slot (by simp [hrest])).1

theorem advanced (h : s.OnLine) (hkind : s.kind ≠ .newline) : s.advanced.OnLine := by
  unfold OnLine at h ⊢
  generalize hrest : s.rest = slots at h
  cases h with
  | lineBreak hbreak => exact absurd ((kind_of_cons hrest).trans hbreak) hkind
  | token _ _ hlater => rwa [rest_advanced hrest]

theorem past_operator (h : s.OnLine) (hoperator : s.kind.operatorForm?.isSome) :
    s.advanced.OnLine ∧ s.advanced.pastNewlines = s.advanced := by
  unfold OnLine at h ⊢
  generalize hrest : s.rest = slots at h
  cases h with
  | lineBreak hbreak =>
      rw [(kind_of_cons hrest).trans hbreak] at hoperator
      cases hoperator
  | token _ hnext hlater =>
      rw [kind_of_cons hrest] at hoperator
      have hkind := kind_of_cons (rest_advanced hrest)
      refine ⟨by rwa [rest_advanced hrest], pastWhile_eq_self ?_⟩
      simpa [hkind] using hnext hoperator

theorem entered (h : s.OnLine) : s.entered.OnLine := h

theorem ahead (h : s.OnLine) (hahead : s'.rest <:+ s.rest) (hmore : s'.kind ≠ .endOfFile) : s'.OnLine := by
  refine Slot.Line.suffix h hahead ?_
  intro hnone
  exact hmore (kind_of_nil hnone)

end State.OnLine

namespace Parser

variable {α β : Type}

/-! ### Steps -/

/-- The step leaves the newline of a plain line to read, whether it fails or not. -/
def Stays (p : Parser α) : Prop :=
  ∀ s : State, s.OnLine → (finalState p s).OnLine

/-- The step fails on every plain line. -/
def Stops (p : Parser α) : Prop :=
  ∀ s : State, s.OnLine → ∃ e s', p s = .error e s' ∧ s'.OnLine

theorem onLine_bind {p : Parser α} {f : α → Parser β} {s : State} (hp : (finalState p s).OnLine)
    (hf : ∀ value, Stays (f value)) : (finalState (p >>= f) s).OnLine := by
  unfold finalState at hp ⊢
  rw [run_bind]
  cases hrun : p s with
  | ok value s' =>
      rw [hrun] at hp
      exact hf value s' hp
  | error e s' =>
      rw [hrun] at hp
      exact hp

theorem onLine_advance {f : Token → Parser α} {s : State} (h : s.OnLine) (hkind : s.kind ≠ .newline)
    (hf : ∀ token, Stays (f token)) : (finalState (advance >>= f) s).OnLine :=
  hf s.current s.advanced (h.advanced hkind)

namespace Stays

variable {p : Parser α}

theorem bind {f : α → Parser β} (hp : Stays p) (hf : ∀ value, Stays (f value)) : Stays (p >>= f) :=
  fun s h => onLine_bind (hp s h) hf

theorem pure (value : α) : Stays (pure value : Parser α) := fun _ h => h

theorem failWith (error : State → SyntaxError) : Stays (Parser.failWith error : Parser α) := fun _ h => h

theorem reportDiagnostic (d : Diagnostic) : Stays (Parser.reportDiagnostic d) := fun _ h => h

theorem report (e : SyntaxError) : Stays (Parser.report e) := fun _ h => h

theorem get {f : State → Parser α} (hf : ∀ s : State, s.OnLine → (finalState (f s) s).OnLine) :
    Stays (get >>= f) :=
  hf

theorem ite (c : Prop) [Decidable c] {q : Parser α} (hp : Stays p) (hq : Stays q) :
    Stays (if c then p else q) := by
  split
  · exact hp
  · exact hq

theorem expect {kind : TokenKind} (hkind : kind ≠ .newline) : Stays (expect kind) := by
  intro s h
  unfold finalState
  rw [run_expect]
  by_cases hnext : s.kind = kind
  · rw [if_pos hnext]
    exact h.advanced (hnext ▸ hkind)
  · rw [if_neg hnext]
    exact h

theorem nested (hp : Stays p) : Stays (nested p) := by
  intro s h
  have hlast := hp s h
  unfold finalState at hlast ⊢
  rw [run_nested]
  cases hrun : p s with
  | ok value s' =>
      rw [hrun] at hlast
      exact hlast
  | error e s' =>
      rw [hrun] at hlast
      exact hlast

end Stays

namespace Stops

variable {p : Parser α}

theorem stays (hp : Stops p) : Stays p := by
  intro s h
  obtain ⟨e, s', hrun, hlast⟩ := hp s h
  unfold finalState
  rwa [hrun]

theorem bind {f : α → Parser β} (hp : Stops p) : Stops (p >>= f) := by
  intro s h
  obtain ⟨e, s', hrun, hlast⟩ := hp s h
  exact ⟨e, s', by rw [run_bind, hrun], hlast⟩

theorem expect {opener : TokenKind} (hopener : opener.closer?.isSome) : Stops (expect opener) := by
  intro s h
  refine ⟨s.unexpected opener.description, s, ?_, h⟩
  rw [run_expect, if_neg]
  rintro rfl
  rw [h.closer?_kind] at hopener
  cases hopener

theorem nested (hp : Stops p) : Stops (nested p) := by
  intro s h
  obtain ⟨e, s', hrun, hlast⟩ := hp s h
  exact ⟨e, s'.leaving s.depth, by rw [run_nested, hrun], hlast⟩

theorem afterEntering (hp : Stops p) : Stops (enterNesting >>= fun _ => p) := by
  intro s h
  by_cases hdeep : nestingLimit ≤ s.depth
  · exact ⟨_, s, by rw [run_bind, run_enterNesting, if_pos hdeep], h⟩
  · obtain ⟨e, s', hrun, hlast⟩ := hp s.entered h.entered
    exact ⟨e, s', by rw [run_bind, run_enterNesting, if_neg hdeep]; exact hrun, hlast⟩

end Stops

/-! ### Forms of expressions -/

theorem stays_missingExpression : Stays missingExpression := by
  refine .get fun s h => ?_
  split
  · exact onLine_bind (Stays.reportDiagnostic _ s h) fun _ => .pure _
  · exact h

theorem stays_literal : Stays literal := by
  refine .get fun s h => ?_
  cases hliteral : literalKind? s.kind with
  | none => exact h
  | some kind => exact onLine_advance h (State.kind_ne_newline hliteral rfl) fun token => .pure _

theorem stays_identifier : Stays identifier :=
  .bind (.expect nofun) fun _ => .pure _

theorem stops_bracketed {opener closer : TokenKind} (hopener : opener.closer?.isSome)
    (expressionList : Bool) (item : Parser Node) : Stops (bracketed opener closer expressionList item) :=
  .bind (.expect hopener)

theorem stops_parameterList : Stops parameterList := .bind (stops_bracketed rfl _ _)

/-- The readers inside a form leave the newline of a plain line to read, and none of them reads a block. -/
structure StaysInner (inner : Inner) : Prop where
  expression : ∀ power, Stays (inner.expression power)
  block : Stops inner.block

section
variable {inner : Inner} (hinner : StaysInner inner)

theorem stops_arguments : Stops (arguments inner) := stops_bracketed rfl _ _

theorem stays_nameOrCall : Stays (nameOrCall inner) := by
  refine .bind stays_identifier fun name => .get fun s h => ?_
  split
  · exact onLine_bind (stops_arguments.stays s h) fun _ => .pure _
  · exact h

theorem onLine_macroCall {s : State} (h : s.OnLine) (hkind : s.kind ≠ .newline) :
    (finalState (macroCall inner) s).OnLine := by
  refine onLine_advance h hkind fun sigil => .bind stays_identifier fun name => .get fun s h => ?_
  split
  · exact onLine_bind (stops_arguments.stays s h) fun _ => .pure _
  · exact h

include hinner

theorem onLine_prefixed {s : State} (h : s.OnLine) (hkind : s.kind ≠ .newline) (power : BindingPower)
    (node : Token → Node → Node) :
    (finalState (do
      let opening ← advance
      let operand ← inner.expression power
      return node opening operand) s).OnLine :=
  onLine_advance h hkind fun _ => .bind (hinner.expression power) fun _ => .pure _

omit hinner in
theorem onLine_lexicalError {s : State} (h : s.OnLine) (hkind : s.kind ≠ .newline) :
    (finalState lexicalError s).OnLine := by
  refine onLine_advance h hkind fun token => ?_
  cases token.kind with
  | error e => exact .bind (.report _) fun _ => .pure _
  | _ => exact .pure _

theorem onLine_operand {s : State} {form : OperandForm} (h : s.OnLine)
    (hform : s.kind.operandForm? = some form) : (finalState (operand inner form) s).OnLine := by
  have hkind := State.kind_ne_newline hform rfl
  cases form with
  | literal => exact stays_literal s h
  | name => exact stays_nameOrCall s h
  | array => exact Stops.stays (.bind (stops_bracketed rfl _ _)) s h
  | object => exact Stops.stays (.bind (stops_bracketed rfl _ _)) s h
  | lambda => exact onLine_advance h hkind fun opening => stops_parameterList.bind.stays
  | macroCall => exact onLine_macroCall h hkind
  | awaitExpr => exact onLine_prefixed hinner h hkind _ _
  | bang => exact onLine_prefixed hinner h hkind _ _
  | lexicalError => exact onLine_lexicalError h hkind

theorem onLine_rightOperand {s : State} (h : s.OnLine) (hoperator : s.kind.operatorForm?.isSome)
    (power : BindingPower) : (finalState (rightOperand inner power) s).OnLine := by
  obtain ⟨hlater, hnone⟩ := h.past_operator hoperator
  show (finalState (skipNewlines >>= fun _ => inner.expression power >>= fun right =>
    Pure.pure (s.current, right)) s.advanced).OnLine
  unfold finalState
  rw [run_bind, run_skipNewlines, hnone]
  exact onLine_bind (hinner.expression power s.advanced hlater) fun _ => .pure _

theorem onLine_continuation {s : State} {power : BindingPower} {form : OperatorForm} (h : s.OnLine)
    (hkind : s.kind.operatorForm? = some (power, form)) (left : Node) :
    (finalState (continuation inner power left form) s).OnLine := by
  have hoperator : s.kind.operatorForm?.isSome := by rw [hkind, Option.isSome_some]
  cases form with
  | binary | membership | range | member =>
      exact onLine_bind (onLine_rightOperand hinner h hoperator _) fun _ => .pure _
  | subscript =>
      -- the bracket of a subscript does not stand on the line
      have hopener := h.closer?_kind
      generalize s.kind = kind at hkind hopener
      unfold TokenKind.operatorForm? at hkind
      split at hkind <;> cases hkind
      cases hopener

/-! ### Forms of statements -/

omit hinner in
theorem stays_checkedTarget (kind : NodeKind) (target : Node) : Stays (checkedTarget kind target) := by
  unfold checkedTarget
  split
  · exact .pure _
  · exact .bind (.report _) fun _ => .pure _

theorem stays_assignmentOrExpression : Stays (assignmentOrExpression inner) := by
  refine .bind (hinner.expression .assignment) fun target => .get fun s h => ?_
  cases hassign : assignmentKind? s.kind with
  | none => exact h
  | some kind =>
      have hkind := State.kind_ne_newline hassign rfl
      refine onLine_advance h hkind fun operator => .bind (hinner.expression .assignment) fun value => ?_
      exact .bind (stays_checkedTarget kind target) fun _ => .pure _

omit hinner in
theorem stays_asyncWord : Stays asyncWord := by
  refine .get fun s h => ?_
  split
  · rename_i hasync
    exact onLine_advance h (by rw [hasync]; exact nofun) fun _ => .pure _
  · exact h

omit hinner in
theorem stays_functionDecl : Stays (functionDecl inner) := by
  rw [functionDecl_eq]
  refine .get fun s h => ?_
  refine onLine_bind (stays_asyncWord s h) fun before => .bind (.expect nofun) fun _ => ?_
  have hlater : Stays (laterAsyncWord before) := by
    unfold laterAsyncWord
    exact .ite _ (.pure _) stays_asyncWord
  exact .bind hlater fun isAsync => .bind stays_identifier fun name => stops_parameterList.bind.stays

theorem stays_functionStmt : Stays (functionStmt inner) := by
  refine .get fun s h => ?_
  split
  · exact stays_assignmentOrExpression hinner s h
  · exact stays_functionDecl s h

omit hinner in
theorem stays_segmentsWithin (segments : List Node) (budget : List Slot) :
    Stays (segmentsWithin segments budget) := by
  induction budget generalizing segments with
  | nil => exact .pure _
  | cons slot budget ih =>
      refine .get fun s h => ?_
      split
      · rename_i hdot
        refine onLine_advance h (by rw [hdot]; exact nofun) fun _ => ?_
        exact .bind stays_identifier fun next => ih _
      · exact h

omit hinner in
theorem stays_segments : Stays segments := by
  refine .get fun s h => ?_
  split
  · exact onLine_bind (stays_literal s h) fun _ => .pure _
  · refine onLine_bind (stays_identifier s h) fun first => .get fun s' h' => ?_
    exact stays_segmentsWithin _ _ s' h'

omit hinner in
theorem stays_importPath : Stays importPath := by
  refine .bind (.expect nofun) fun scheme => .bind (.expect nofun) fun _ => ?_
  refine .bind stays_segments fun parts => .get fun s h => ?_
  split
  · exact h
  · exact onLine_bind (Stays.report _ s h) fun _ => .pure _

omit hinner in
theorem stays_pathImport : Stays pathImport := by
  refine .bind stays_importPath fun path => .get fun s h => ?_
  split
  · rename_i has
    exact onLine_advance h (by rw [has]; exact nofun) fun _ => .bind stays_identifier fun _ => .pure _
  · exact h

omit hinner in
theorem stops_nameImport : Stops nameImport :=
  .bind (.bind (stops_bracketed rfl _ _))

omit hinner in
theorem onLine_importStmt {s : State} (h : s.OnLine) (hkind : s.kind ≠ .newline) :
    (finalState importStmt s).OnLine := by
  refine onLine_advance h hkind fun opening => .get fun s h => ?_
  split
  · exact stops_nameImport.bind.stays s h
  · exact onLine_bind (stays_pathImport s h) fun _ => .get fun _ h => h

theorem onLine_controlled {s : State} (h : s.OnLine) (hkind : s.kind ≠ .newline)
    (f : Token → Node → Node → Parser Node) :
    (finalState (do
      let opening ← advance
      let condition ← inner.expression .lowest
      let body ← inner.block
      f opening condition body) s).OnLine :=
  onLine_advance h hkind fun _ => .bind (hinner.expression .lowest) fun _ => hinner.block.bind.stays

theorem onLine_returnStmt {s : State} (h : s.OnLine) (hkind : s.kind ≠ .newline) :
    (finalState (returnStmt inner) s).OnLine := by
  refine onLine_advance h hkind fun opening => .get fun s h => ?_
  split
  · exact h
  · exact onLine_bind (hinner.expression .lowest s h) fun _ => .pure _

theorem onLine_statementOf {s : State} {form : StatementForm} (h : s.OnLine)
    (hform : s.kind.statementForm? = some form) : (finalState (statementOf inner form) s).OnLine := by
  have hkind := State.kind_ne_newline hform rfl
  cases form with
  | functionDecl => exact stays_functionStmt hinner s h
  | macroDecl =>
      refine onLine_advance h hkind fun opening => .bind stays_identifier fun name => ?_
      exact stops_parameterList.bind.stays
  | structDecl =>
      refine onLine_advance h hkind fun opening => .bind stays_identifier fun name => ?_
      exact Stops.stays (.bind (.expect rfl))
  | importStmt => exact onLine_importStmt h hkind
  | forStmt => exact onLine_controlled hinner h hkind _
  | ifStmt => exact onLine_controlled hinner h hkind _
  | returnStmt => exact onLine_returnStmt hinner h hkind

theorem stays_statementIn : Stays (statementIn inner) := by
  intro s h
  simp only [finalState, statementIn, run_bind, run_get, run_log]
  cases hform : s.current.kind.statementForm? with
  | none => exact stays_assignmentOrExpression hinner (s.logged _) h
  | some form => exact onLine_statementOf hinner (s := s.logged _) h hform

end

/-! ### Nesting -/

theorem onLine_afterPending {power : BindingPower} {f : Option (BindingPower × OperatorForm) → Parser Node}
    {s : State} (hf : (finalState (f (s.pending power)) s).OnLine) :
    (finalState (pendingOperator power >>= f) s).OnLine := by
  unfold finalState
  rw [run_bind, run_pendingOperator]
  exact hf

theorem onLine_afterEntering {f : Unit → Parser Node} {s : State} (h : s.OnLine)
    (hf : (finalState (f ()) s.entered).OnLine) : (finalState (enterNesting >>= f) s).OnLine := by
  unfold finalState at hf ⊢
  rw [run_bind, run_enterNesting]
  by_cases hdeep : nestingLimit ≤ s.depth
  · rw [if_pos hdeep]
    exact h
  · rw [if_neg hdeep]
    exact hf

theorem stops_blockAt (levels : Nat) : Stops (blockAt levels) := by
  cases levels with
  | zero => exact fun s h => ⟨_, s, rfl, h⟩
  | succ levels =>
      unfold blockAt
      exact .nested (.afterEntering (.bind (.expect rfl)))

/-- No reader goes past a plain line, whatever the number of levels left. -/
theorem stays_levels (levels : Nat) :
    (∀ power, Stays (expressionAt levels power)) ∧ ∀ power left, Stays (climbAt levels power left) := by
  induction levels with
  | zero =>
      refine ⟨fun power => .failWith _, fun power left s h => ?_⟩
      unfold climbAt
      apply onLine_afterPending
      cases s.pending power with
      | none => exact h
      | some next => exact h
  | succ levels ih =>
      obtain ⟨hexpression, hclimb⟩ := ih
      have hinner : StaysInner ⟨expressionAt levels, blockAt levels⟩ := ⟨hexpression, stops_blockAt levels⟩
      constructor
      · intro power
        unfold expressionAt
        refine .nested fun s h => onLine_afterEntering h ?_
        refine Stays.get (fun s h => ?_) s.entered h
        cases hform : s.kind.operandForm? with
        | none => exact stays_missingExpression s h
        | some form => exact onLine_bind (onLine_operand hinner h hform) fun left => hclimb power left
      · intro power left s h
        unfold climbAt
        apply onLine_afterPending
        cases hpending : s.pending power with
        | none => exact h
        | some pending =>
            obtain ⟨hkind, -⟩ := State.pending_eq_some.mp hpending
            refine onLine_afterEntering h ?_
            exact onLine_bind (onLine_continuation hinner h.entered hkind left) fun folded =>
              hclimb power folded

theorem stays_statement : Stays statement :=
  .get fun s h => stays_statementIn ⟨(stays_levels _).1, stops_blockAt _⟩ s h

end Parser

/-! ### Recovery and rounds -/

theorem Bracket.owed_of_bracketless {kinds : List TokenKind}
    (h : ∀ kind ∈ kinds, kind.closer? = none ∧ kind.isCloser = false) : Bracket.owed kinds = [] := by
  unfold Bracket.owed
  induction kinds with
  | nil => rfl
  | cons kind kinds ih =>
      obtain ⟨⟨hopener, hcloser⟩, hrest⟩ := List.forall_mem_cons.mp h
      have hnext : Bracket.next [] kind = [] := by simp [Bracket.next, hopener, hcloser]
      rw [List.foldl_cons, hnext]
      exact ih hrest

namespace State.OnLine

variable {s s' : State}

theorem pastBroken (h : s.OnLine) : (State.pastBroken false [] s.rest s).OnLine := by
  unfold OnLine at h
  generalize hrest : s.rest = slots at h
  induction h generalizing s with
  | @lineBreak slot hkind =>
      have hpoint : isRecoveryPoint false [] slot.kind = true := by rw [hkind]; rfl
      rw [State.pastBroken, if_pos hpoint, OnLine, hrest]
      exact .lineBreak hkind
  | @token slot next slots hslot hnext hlater ih =>
      unfold State.pastBroken
      split
      · rw [OnLine, hrest]
        exact .token hslot hnext hlater
      · have howed : Bracket.next [] slot.kind = [] := by simp [Bracket.next, hslot.closer?, hslot.isCloser]
        rw [howed]
        exact ih (rest_advanced hrest)

/-- Nothing is owed inside of a line, so the recovery from a statement that began on it ends there. -/
theorem recovered (hbegun : s'.OnLine) (h : s.OnLine) : (s.recovered s'.mark false).OnLine := by
  have howed : Bracket.owed (((s'.mark.slots.take (s.consumed - s'.mark.index))).map (·.kind)) = [] := by
    apply Bracket.owed_of_bracketless
    intro kind hkind
    obtain ⟨slot, hslot, rfl⟩ := List.mem_map.mp hkind
    exact Slot.Line.bracketless hbegun slot (List.mem_of_mem_take hslot)
  simp only [State.recovered, howed]
  exact h.pastBroken

end State.OnLine

theorem Parser.Rounds.onLine {nodes : List Node} {s s' : State} (h : Rounds nodes s s') (hs : s.OnLine) :
    s'.OnLine := by
  induction h with
  | none => exact hs
  | @round nodes more s s₁ s₂ hmore hround hrest ih =>
      have hnext : s.pastSeparators.kind ≠ .endOfFile := by
        intro hend
        simp [atListEnd, hend] at hmore
      have hs := hs.ahead s.advances_pastSeparators.rest hnext
      have hstays := stays_statement s.pastSeparators hs
      apply ih
      cases rounded_of_statementRound hround with
      | whole hstatement =>
          rw [finalState, hstatement] at hstays
          exact hstays
      | @joined node middle _ hstatement _ hrecovered =>
          rw [finalState, hstatement] at hstays
          rw [hrecovered]
          exact .recovered hstays hstays
      | @broken e middle _ hstatement hrecovered =>
          rw [finalState, hstatement] at hstays
          rw [hrecovered]
          exact .recovered hs hstays

end ScriptSyntax
