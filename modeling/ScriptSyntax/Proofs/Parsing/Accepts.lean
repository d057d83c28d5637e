import ScriptSyntax.Proofs.Parsing.Before
import ScriptSyntax.Proofs.Parsing.Runs
import ScriptSyntax.Proofs.Tree.Lines

/-!
The parser reads every well-formed tree back from its words: `parse_printed`.
-/

namespace ScriptSyntax

/-- A token of the kind ends an expression: it is no operator and opens no arguments. -/
def TokenKind.EndsExpression (kind : TokenKind) : Prop :=
  kind ≠ .leftParen ∧ kind.operatorForm? = none

/-- The words can stand on the line below a statement: they neither leave it empty nor go on with an
`if` above. -/
def EndsLine (words : List String) : Prop :=
  (TokenKind.ofWords words).isSeparator = false ∧
    Parser.clauseKind? (TokenKind.ofWords words) = none

theorem EndsLine.ne_newline {words : List String} (h : EndsLine words) :
    TokenKind.ofWords words ≠ .newline := by
  intro hnewline
  have hseparator := h.1
  rw [hnewline] at hseparator
  cases hseparator

namespace Part

/-- The words can stand behind a node that is read as the part. -/
def EndsBefore (part : Part) (n : Node) (after : List String) : Prop :=
  match part with
  | expression power => TokenKind.ofWords after ≠ .leftParen ∧
      ∀ next form, (TokenKind.ofWords after).operatorForm? = some (next, form) →
        ¬power < next ∧ n.yields next
  | operand _ => TokenKind.ofWords after ≠ .leftParen ∧
      ∀ next form, (TokenKind.ofWords after).operatorForm? = some (next, form) → n.yields next
  | entry => (TokenKind.ofWords after).EndsExpression
  | path => TokenKind.ofWords after ≠ .dot
  | field => TokenKind.ofWords after = .newline
  | statement | assignment | form _ => ∃ more, after = "\n" :: more ∧ EndsLine more
  | _ => True

/-- The node does not nest too deep to be read as the part inside of the number of levels.  The level of
an operand is entered before it; a name or a path enters none. -/
def Fits (part : Part) (n : Node) (depth : Nat) : Prop :=
  match part with
  | operand _ => depth + n.nesting ≤ nestingLimit + 1
  | name | path => True
  | _ => depth + n.nesting ≤ nestingLimit

/-- Wherever the words of the node are next, the part reads the node from them, up to its spans. -/
def Accepts (part : Part) (n : Node) : Prop :=
  ∀ (s : State) (after : List String), s.Before (n.lineWords ++ after) → part.EndsBefore n after →
    part.Fits n s.depth → ∃ n' s', Reads true part [n'] s s' ∧ n'.bare = n.bare ∧ s'.Before after

end Part

/-- Wherever the words of an expression are next, its first operand is read and then its operators: what
climbs on from behind the whole expression climbs on from behind that operand. -/
def Node.Climbs (n : Node) (power : BindingPower) : Prop :=
  ∀ (s : State) (after : List String), s.Before (n.lineWords ++ after) →
    TokenKind.ofWords after ≠ .leftParen →
    (∀ next form, (TokenKind.ofWords after).operatorForm? = some (next, form) → n.yields next) →
    s.depth + n.nesting ≤ nestingLimit →
      ∃ form left n' s₁ s₂, s.kind.operandForm? = some form ∧
        Reads true (.operand form) [left] s.entered s₁ ∧
        (∀ node s₃, Reads true (.climb power n') [node] s₂ s₃ →
          Reads true (.climb power left) [node] s₁ s₃) ∧
        n'.bare = n.bare ∧ s₂.Before after ∧ s₂.depth = s.depth + n.opened

variable {n : Node} {power : BindingPower}

theorem Node.Climbs.accepts (h : n.Climbs power) (hopened : 0 < n.nesting) :
    (Part.expression power).Accepts n := by
  intro s after hs hend hdepth
  simp only [Part.Fits] at hdepth
  obtain ⟨form, left, n', s₁, s₂, hform, hleft, hclimb, hbare, hs₂, -⟩ :=
    h s after hs hend.1 (fun next form hnext => (hend.2 next form hnext).2) hdepth
  have hpending : s₂.pending power = none := by
    unfold State.pending
    rw [hs₂.kind]
    cases hnext : (TokenKind.ofWords after).operatorForm? with
    | none => rfl
    | some next => simp [Option.filter, (hend.2 next.1 next.2 hnext).1]
  have hentered : s.depth < nestingLimit := by omega
  exact ⟨n', s₂.leaving s.depth, .expression hentered hform hleft (hclimb n' s₂ (.climbStop hpending)),
    hbare, hs₂.leaving s.depth⟩

theorem State.Before.leaf {s : State} {after : List String} (hs : s.Before (n.lineWords ++ after))
    (hname : Node.WellFormed .name n) :
    s.kind = .identifier ∧ (s.leaf .identifier).bare = n.bare ∧ s.advanced.Before after := by
  cases hname with
  | @identifier text span htext =>
      have hwords : s.Before (text :: after) := by
        rw [Node.lineWords_mk] at hs
        exact hs
      refine ⟨hwords.kind_eq htext, ?_, hwords.advanced⟩
      show Node.bare ⟨.identifier, [], s.current.span, some s.current.text⟩ = _
      rw [Node.bare_mk, Node.bare_mk, hwords.text]

/-! ### Lists -/

/-- The node begins with no newline, so it is next behind any bracket, comma or end of a line. -/
def Node.BeginsLine (n : Node) : Prop := BeginsWith n.lineWords (·.isSeparator = false)

theorem endsExpression_of_closer? {opener closer : TokenKind} (h : opener.closer? = some closer) :
    closer.EndsExpression ∧ closer.isSeparator = false ∧ closer ≠ .comma := by
  unfold TokenKind.closer? at h
  split at h <;> cases h
  all_goals exact ⟨⟨nofun, rfl⟩, rfl, nofun⟩

theorem TokenKind.EndsExpression.endsBefore {after : List String}
    (h : (TokenKind.ofWords after).EndsExpression) (power : BindingPower) (n : Node) :
    (Part.expression power).EndsBefore n after := by
  refine ⟨h.1, fun next form hnext => ?_⟩
  rw [h.2] at hnext
  cases hnext

theorem Item.endsBefore (item : Item) (n : Node) {after : List String}
    (h : (TokenKind.ofWords after).EndsExpression) : item.part.EndsBefore n after := by
  cases item with
  | name => trivial
  | expression => exact h.endsBefore .lowest n
  | entry => exact h

/-- The nodes are the same up to their places in a source. -/
def SameNodes (first second : List Node) : Prop := first.map Node.bare = second.map Node.bare

namespace SameNodes

variable {first second : List Node}

theorem nil : SameNodes [] [] := rfl

theorem cons {n n' : Node} (h : n'.bare = n.bare) (hrest : SameNodes first second) :
    SameNodes (n' :: first) (n :: second) := by
  show n'.bare :: first.map Node.bare = n.bare :: second.map Node.bare
  rw [h, hrest]

theorem append {first' second' : List Node} (h : SameNodes first second)
    (h' : SameNodes first' second') : SameNodes (first ++ first') (second ++ second') := by
  unfold SameNodes at *
  rw [List.map_append, List.map_append, h, h']

theorem ne_nil (h : SameNodes first second) (hsecond : second ≠ []) : first ≠ [] := by
  rintro rfl
  cases second with
  | nil => exact hsecond rfl
  | cons n nodes => cases h

theorem bare (h : SameNodes first second) (kind : NodeKind) (span span' : Span)
    (literal : Option String) :
    Node.bare ⟨kind, first, span', literal⟩ = Node.bare ⟨kind, second, span, literal⟩ := by
  rw [Node.bare_mk, Node.bare_mk, h]

end SameNodes

/-- The words behind the first item of a list. -/
def wordsBehind (rest : List Node) (closing : String) (after : List String) : List String :=
  (rest.map ("," :: ·.lineWords)).flatten ++ closing :: after

section
variable {item : Item} (opener : TokenKind) {closer : TokenKind} {opening closing : String}
  (hcloser? : opener.closer? = some closer) (hclosing : closer.spelling? = some closing)
include hcloser? hclosing

theorem ofWords_wordsBehind (rest : List Node) (after : List String) :
    (TokenKind.ofWords (wordsBehind rest closing after)).EndsExpression ∧
      TokenKind.ofWords (wordsBehind rest closing after) ≠ .newline := by
  obtain ⟨hends, hseparator, -⟩ := endsExpression_of_closer? hcloser?
  cases rest with
  | nil =>
      rw [show TokenKind.ofWords (wordsBehind [] closing after) = closer from
        ofWords_spelled hclosing after]
      refine ⟨hends, ?_⟩
      rintro rfl
      cases hseparator
  | cons n rest =>
      rw [show TokenKind.ofWords (wordsBehind (n :: rest) closing after) = .comma from
        ofWords_spelled rfl _]
      exact ⟨⟨nofun, rfl⟩, nofun⟩

theorem accepts_more {rest : List Node} (hrest : ∀ n ∈ rest, item.part.Accepts n ∧ n.BeginsLine)
    {s : State} {after : List String} (hs : s.Before (wordsBehind rest closing after))
    (hdepth : ∀ n ∈ rest, item.part.Fits n s.depth) :
    ∃ rest' s', Reads true (.more item) rest' s s' ∧ SameNodes rest' rest ∧
      s'.Before (closing :: after) := by
  induction rest generalizing s with
  | nil =>
      refine ⟨[], s, .noMore ?_, rfl, hs⟩
      rw [hs.kind_spelled hclosing]
      exact (endsExpression_of_closer? hcloser?).2.2
  | cons n rest ih =>
      obtain ⟨haccepts, hbegins⟩ := hrest n (by simp)
      obtain ⟨hends, hnewline⟩ := ofWords_wordsBehind opener hcloser? hclosing rest after
      have hkind : s.kind = .comma := hs.kind_spelled rfl
      have hitem : s.advanced.Before (n.lineWords ++ wordsBehind rest closing after) := by
        have hbehind := hs.advanced
        simpa [wordsBehind] using hbehind
      obtain ⟨n', s₁, hn', hbare, hs₁⟩ := haccepts s.advanced _ hitem (item.endsBefore n hends) (by
        rw [State.depth_advanced]
        exact hdepth n (by simp))
      have hdepth₁ : s₁.depth = s.depth := by
        have hkept := hn'.depth item.leavesLevels_part
        simpa using hkept
      obtain ⟨rest', s₂, hrest', hsame, hs₂⟩ := ih (fun m hm => hrest m (by simp [hm])) hs₁
        (fun m hm => by rw [hdepth₁]; exact hdepth m (by simp [hm]))
      rw [← hitem.pastNewlines_begins hbegins] at hn'
      rw [← hs₁.pastNewlines hnewline] at hrest'
      exact ⟨n' :: rest', s₂, .more hkind hn' hrest', .cons hbare hsame, hs₂⟩

theorem accepts_list {nodes : List Node} (expressionList : Bool)
    (hopening : opener.spelling? = some opening)
    (hnodes : ∀ n ∈ nodes, item.part.Accepts n ∧ n.BeginsLine) {s : State} {after : List String}
    (hs : s.Before (opening :: [","].intercalate (nodes.map Node.lineWords) ++ closing :: after))
    (hdepth : ∀ n ∈ nodes, item.part.Fits n s.depth) :
    ∃ nodes' s', Reads true (.list opener closer expressionList item) nodes' s s' ∧
      SameNodes nodes' nodes ∧ s'.Before after := by
  have hkind : s.kind = opener := hs.kind_spelled hopening
  have hinside : (s.advanced.opened closer expressionList).Before
      ([","].intercalate (nodes.map Node.lineWords) ++ closing :: after) :=
    hs.advanced.opened closer expressionList
  cases nodes with
  | nil =>
      have hclosed : (s.advanced.opened closer expressionList).Before (closing :: after) := hinside
      have hlines : (s.advanced.opened closer expressionList).pastNewlines =
          s.advanced.opened closer expressionList := by
        refine hclosed.pastNewlines ?_
        exact (ofWords_wordsBehind opener hcloser? hclosing [] after).2
      refine ⟨[], _, .emptyList hkind ?_, rfl, ?_⟩
      · rw [hlines]
        exact hclosed.kind_spelled hclosing
      · rw [hlines]
        exact hclosed.advanced.closed
  | cons n rest =>
      obtain ⟨haccepts, hbegins⟩ := hnodes n (by simp)
      obtain ⟨hends, hnewline⟩ := ofWords_wordsBehind opener hcloser? hclosing rest after
      have hitem : (s.advanced.opened closer expressionList).Before
          (n.lineWords ++ wordsBehind rest closing after) := by
        rw [List.map_cons, intercalate_cons] at hinside
        simpa [wordsBehind, List.map_map, Function.comp_def] using hinside
      obtain ⟨n', s₁, hn', hbare, hs₁⟩ := haccepts _ _ hitem (item.endsBefore n hends) (by
        rw [State.depth_opened, State.depth_advanced]
        exact hdepth n (by simp))
      have hdepth₁ : s₁.depth = s.depth := by
        have hkept := hn'.depth item.leavesLevels_part
        simpa using hkept
      obtain ⟨rest', s₂, hrest', hsame, hs₂⟩ := accepts_more opener hcloser? hclosing
        (fun m hm => hnodes m (by simp [hm])) hs₁
        (fun m hm => by rw [hdepth₁]; exact hdepth m (by simp [hm]))
      rw [← hitem.pastNewlines_begins hbegins] at hn'
      rw [← hs₁.pastNewlines hnewline] at hrest'
      exact ⟨n' :: rest', s₂.advanced.closed, .items hkind hn' hrest' (hs₂.kind_spelled hclosing),
        .cons hbare hsame, hs₂.advanced.closed⟩

end

/-! ### Lines -/

/-- Nodes on lines of their own. -/
def linesOf (nodes : List Node) (after : List String) : List String :=
  (nodes.map fun n => n.lineWords ++ ["\n"]).flatten ++ after

theorem linesOf_cons (n : Node) (nodes : List Node) (after : List String) :
    linesOf (n :: nodes) after = n.lineWords ++ "\n" :: linesOf nodes after := by
  simp [linesOf]

theorem starts_statement {kind : TokenKind} (h : Part.statement.Starts kind) :
    kind.isSeparator = false ∧ Parser.clauseKind? kind = none ∧ kind ≠ .endOfFile ∧
      kind ≠ .rightBrace := by
  rcases h with h | h
  · unfold TokenKind.operandForm? at h
    split at h
    all_goals first | exact ⟨rfl, rfl, nofun, nofun⟩ | cases h
  · unfold TokenKind.statementForm? at h
    split at h
    all_goals first | exact ⟨rfl, rfl, nofun, nofun⟩ | cases h

theorem starts_statement_of_field {words : List String} (h : BeginsWith words Part.field.Starts) :
    BeginsWith words Part.statement.Starts := by
  refine h.mono fun kind hkind => .inl ?_
  rw [show kind = .identifier from hkind]
  rfl

theorem starts_statement_of_form {words : List String} {form : StatementForm}
    (h : BeginsWith words (Part.form form).Starts) : BeginsWith words Part.statement.Starts := by
  refine h.mono fun kind hkind => .inr ?_
  rw [show kind.statementForm? = some form from hkind]
  rfl

theorem endsLine_linesOf {nodes : List Node} {after : List String}
    (hnodes : ∀ n ∈ nodes, BeginsWith n.lineWords Part.statement.Starts) (hafter : EndsLine after) :
    EndsLine (linesOf nodes after) := by
  cases nodes with
  | nil => exact hafter
  | cons n nodes =>
      have hkind := ((hnodes n (by simp)).append ("\n" :: linesOf nodes after)).ofWords
      rw [linesOf_cons]
      exact ⟨(starts_statement hkind).1, (starts_statement hkind).2.1⟩

theorem accepts_statements {inBlock : Bool} {body : List Node} {after : List String}
    (hbody : ∀ n ∈ body, Part.statement.Accepts n ∧ BeginsWith n.lineWords Part.statement.Starts)
    (hafter : TokenKind.ofWords after = .endOfFile ∨
      inBlock = true ∧ TokenKind.ofWords after = .rightBrace) {s : State}
    (hs : s.pastSeparators.Before (linesOf body after))
    (hdepth : ∀ n ∈ body, s.depth + n.nesting ≤ nestingLimit) :
    ∃ body' s', Reads true (.statements inBlock) body' s s' ∧ SameNodes body' body ∧
      s'.Before after := by
  have hends : EndsLine after := by
    rcases hafter with h | ⟨-, h⟩
    · exact ⟨by rw [h]; rfl, by rw [h]; rfl⟩
    · exact ⟨by rw [h]; rfl, by rw [h]; rfl⟩
  induction body generalizing s with
  | nil =>
      have hkind : s.pastSeparators.kind = TokenKind.ofWords after := hs.kind
      refine ⟨[], s.pastSeparators, .noStatements ?_, rfl, hs⟩
      rcases hafter with h | ⟨rfl, h⟩
      · simp [Parser.atListEnd, hkind, h]
      · simp [Parser.atListEnd, hkind, h]
  | cons n body ih =>
      obtain ⟨haccepts, hstarts⟩ := hbody n (by simp)
      have hlater : EndsLine (linesOf body after) :=
        endsLine_linesOf (fun m hm => (hbody m (by simp [hm])).2) hends
      rw [linesOf_cons] at hs
      have hkind : Part.statement.Starts s.pastSeparators.kind := by
        rw [hs.kind]
        exact (hstarts.append _).ofWords
      obtain ⟨-, -, hfile, hbrace⟩ := starts_statement hkind
      have hmore : Parser.atListEnd inBlock s.pastSeparators = false := by
        simp [Parser.atListEnd, hfile, hbrace]
      obtain ⟨n', s₁, hn', hbare, hs₁⟩ := haccepts _ _ hs ⟨_, rfl, hlater⟩ (by
        rw [State.depth_pastSeparators]
        exact hdepth n (by simp))
      have hdepth₁ : s₁.depth = s.depth := by simpa using hn'.depth rfl
      have hseparated : s₁.kind.isSeparator ∨ Parser.atListEnd inBlock s₁ := by
        left
        rw [hs₁.kind_eq TokenKind.writes_newline]
        rfl
      obtain ⟨body', s₂, hbody', hsame, hs₂⟩ := ih (fun m hm => hbody m (by simp [hm]))
        (hs₁.pastSeparators_newline hlater.1)
        (fun m hm => by rw [hdepth₁]; exact hdepth m (by simp [hm]))
      exact ⟨n' :: body', s₂, .whole hmore hn' hseparated hbody', .cons hbare hsame, hs₂⟩

theorem accepts_member (isMethod : Bool) {seenMethod : Bool} {n : Node} {rest : List Node}
    {more after : List String} (hmore : EndsLine more)
    (hmember : ∀ s : State, s.Before (n.lineWords ++ "\n" :: more) →
      s.depth + n.nesting ≤ nestingLimit →
        ∃ n' s', Reads true (.member seenMethod isMethod) [n'] s s' ∧ n'.bare = n.bare ∧
          s'.Before ("\n" :: more)) {s : State}
    (hrest : ∀ t : State, t.depth = s.depth → t.pastSeparators.Before more →
      ∃ rest' s', Reads true (.members (seenMethod || isMethod)) rest' t s' ∧ SameNodes rest' rest ∧
        s'.Before after)
    (hs : s.pastSeparators.Before (n.lineWords ++ "\n" :: more))
    (hdepth : s.depth + n.nesting ≤ nestingLimit) :
    ∃ nodes' s', Reads true (.members seenMethod) nodes' s s' ∧ SameNodes nodes' (n :: rest) ∧
      s'.Before after := by
  obtain ⟨n', s₁, hn', hbare, hs₁⟩ := hmember _ hs (by rw [State.depth_pastSeparators]; exact hdepth)
  have hdepth₁ : s₁.depth = s.depth := by simpa using hn'.depth rfl
  obtain ⟨rest', s₂, hrest', hsame, hs₂⟩ := hrest s₁ hdepth₁ (hs₁.pastSeparators_newline hmore.1)
  have hend : s₁.atStatementEnd := by
    simp [State.atStatementEnd, hs₁.kind_eq TokenKind.writes_newline, TokenKind.isSeparator]
  exact ⟨n' :: rest', s₂, .members hn' hend hrest', .cons hbare hsame, hs₂⟩

theorem accepts_methods {seenMethod : Bool} {methods : List Node} {after : List String}
    (hmethods : ∀ n ∈ methods, (Part.form .functionDecl).Accepts n ∧
      BeginsWith n.lineWords (Part.form .functionDecl).Starts)
    (hafter : TokenKind.ofWords after = .rightBrace) {s : State}
    (hs : s.pastSeparators.Before (linesOf methods after))
    (hdepth : ∀ n ∈ methods, s.depth + n.nesting ≤ nestingLimit) :
    ∃ methods' s', Reads true (.members seenMethod) methods' s s' ∧ SameNodes methods' methods ∧
      s'.Before after := by
  have hends : EndsLine after := ⟨by rw [hafter]; rfl, by rw [hafter]; rfl⟩
  induction methods generalizing s seenMethod with
  | nil => exact ⟨[], s.pastSeparators, .noMembers (by rw [hs.kind]; exact hafter), rfl, hs⟩
  | cons n methods ih =>
      obtain ⟨haccepts, hstarts⟩ := hmethods n (by simp)
      have hmore : EndsLine (linesOf methods after) := by
        refine endsLine_linesOf (fun m hm => ?_) hends
        exact starts_statement_of_form (hmethods m (by simp [hm])).2
      rw [linesOf_cons] at hs
      refine accepts_member true hmore ?_ ?_ hs (hdepth n (by simp))
      · intro t ht hlimit
        obtain ⟨n', t', hn', hbare, ht'⟩ := haccepts t _ ht ⟨_, rfl, hmore⟩ hlimit
        have hkind : t.kind.statementForm? = some .functionDecl := by
          rw [ht.kind]
          exact (hstarts.append _).ofWords
        have hword : t.kind = .keyword .fnKw ∨ t.kind = .keyword .asyncKw := by
          rcases Parser.kind_of_statementForm? hkind with h | ⟨h, -⟩
          · exact .inl h
          · exact .inr h
        exact ⟨n', t', .method hword hn', hbare, ht'⟩
      · intro t hlevel ht
        exact ih (fun m hm => hmethods m (by simp [hm])) ht
          (fun m hm => by rw [hlevel]; exact hdepth m (by simp [hm]))

theorem accepts_members {fields methods : List Node} {after : List String}
    (hfields : ∀ n ∈ fields, Part.field.Accepts n ∧ BeginsWith n.lineWords Part.field.Starts)
    (hmethods : ∀ n ∈ methods, (Part.form .functionDecl).Accepts n ∧
      BeginsWith n.lineWords (Part.form .functionDecl).Starts)
    (hafter : TokenKind.ofWords after = .rightBrace) {s : State}
    (hs : s.pastSeparators.Before (linesOf (fields ++ methods) after))
    (hdepth : ∀ n ∈ fields ++ methods, s.depth + n.nesting ≤ nestingLimit) :
    ∃ members' s', Reads true (.members false) members' s s' ∧
      SameNodes members' (fields ++ methods) ∧ s'.Before after := by
  have hends : EndsLine after := ⟨by rw [hafter]; rfl, by rw [hafter]; rfl⟩
  induction fields generalizing s with
  | nil => exact accepts_methods hmethods hafter hs hdepth
  | cons n fields ih =>
      have hmore : EndsLine (linesOf (fields ++ methods) after) := by
        refine endsLine_linesOf (fun m hm => ?_) hends
        rcases List.mem_append.mp hm with hm | hm
        · exact starts_statement_of_field (hfields m (by simp [hm])).2
        · exact starts_statement_of_form (hmethods m hm).2
      rw [List.cons_append, linesOf_cons] at hs
      refine accepts_member false hmore ?_ ?_ hs (hdepth n (by simp))
      · intro t ht hlimit
        have hnewline : Part.field.EndsBefore n ("\n" :: linesOf (fields ++ methods) after) :=
          TokenKind.writes_newline.ofWord
        obtain ⟨n', t', hn', hbare, ht'⟩ := (hfields n (by simp)).1 t _ ht hnewline hlimit
        exact ⟨n', t', .earlyField hn', hbare, ht'⟩
      · intro t hlevel ht
        exact ih (fun m hm => hfields m (by simp [hm])) ht
          (fun m hm => by rw [hlevel]; exact hdepth m (by simp [hm]))

/-! ### Clauses and paths -/

theorem accepts_noClauses {seenElse : Bool} {more : List String} (hmore : EndsLine more) {s : State}
    (hs : s.Before ("\n" :: more)) :
    ∃ nodes' s', Reads true (.clauses seenElse) nodes' s s' ∧ SameNodes nodes' [] ∧
      s'.Before ("\n" :: more) := by
  refine ⟨[], s, .noClauses ?_, rfl, hs⟩
  rw [← s.kind_pastNewlines, (hs.pastNewlines_newline hmore.ne_newline).kind]
  exact hmore.2

theorem accepts_clause (isElse : Bool) {n : Node} {rest : List Node} {words after : List String}
    (hclause : (Part.clause isElse).Accepts n)
    (hstarts : BeginsWith n.lineWords (Part.clause isElse).Starts) {s : State}
    (hrest : ∀ t : State, t.depth = s.depth → t.Before words →
      ∃ rest' s', Reads true (.clauses isElse) rest' t s' ∧ SameNodes rest' rest ∧ s'.Before after)
    (hs : s.Before (n.lineWords ++ words)) (hdepth : s.depth + n.nesting ≤ nestingLimit) :
    ∃ nodes' s', Reads true (.clauses false) nodes' s s' ∧ SameNodes nodes' (n :: rest) ∧
      s'.Before after := by
  have hkind : Parser.clauseKind? s.kind = some isElse := by
    rw [hs.kind]
    exact (hstarts.append words).ofWords
  have hlines : s.pastNewlines = s := by
    refine hs.pastNewlines fun hnewline => ?_
    rw [hs.kind, hnewline] at hkind
    cases hkind
  obtain ⟨n', s₁, hn', hbare, hs₁⟩ := hclause s words hs trivial hdepth
  have hdepth₁ : s₁.depth = s.depth := hn'.depth rfl
  obtain ⟨rest', s₂, hrest', hsame, hs₂⟩ := hrest s₁ hdepth₁ hs₁
  rw [← hlines] at hn'
  refine ⟨n' :: rest', s₂, .clauses ?_ hn' hrest', .cons hbare hsame, hs₂⟩
  rw [← s.kind_pastNewlines, hlines]
  exact hkind

theorem accepts_clauses {clauses last : List Node} {more : List String} (hmore : EndsLine more)
    (hclauses : ∀ n ∈ clauses, (Part.clause false).Accepts n ∧
      BeginsWith n.lineWords (Part.clause false).Starts)
    (hlast : ∀ n ∈ last, (Part.clause true).Accepts n ∧
      BeginsWith n.lineWords (Part.clause true).Starts) (hlength : last.length ≤ 1) {s : State}
    (hs : s.Before (((clauses ++ last).map Node.lineWords).flatten ++ "\n" :: more))
    (hdepth : ∀ n ∈ clauses ++ last, s.depth + n.nesting ≤ nestingLimit) :
    ∃ nodes' s', Reads true (.clauses false) nodes' s s' ∧ SameNodes nodes' (clauses ++ last) ∧
      s'.Before ("\n" :: more) := by
  induction clauses generalizing s with
  | nil =>
      match last, hlength with
      | [], _ => exact accepts_noClauses hmore hs
      | [n], _ =>
          obtain ⟨hclause, hstarts⟩ := hlast n (by simp)
          exact accepts_clause true hclause hstarts (fun t _ ht => accepts_noClauses hmore ht)
            (by simpa using hs) (hdepth n (by simp))
  | cons n clauses ih =>
      obtain ⟨hclause, hstarts⟩ := hclauses n (by simp)
      refine accepts_clause false hclause hstarts ?_ (by simpa using hs) (hdepth n (by simp))
      intro t hlevel ht
      exact ih (fun m hm => hclauses m (by simp [hm])) (by simpa using ht)
        (fun m hm => by rw [hlevel]; exact hdepth m (by simp [hm]))

theorem accepts_moreSegments {names : List Node} {after : List String}
    (hnames : ∀ n ∈ names, Node.WellFormed .name n) (hafter : TokenKind.ofWords after ≠ .dot)
    {s : State} (hs : s.Before ((names.map ("." :: ·.lineWords)).flatten ++ after)) :
    ∃ names' s', Reads true .moreSegments names' s s' ∧ SameNodes names' names ∧ s'.Before after := by
  induction names generalizing s with
  | nil =>
      refine ⟨[], s, .noMoreSegments ?_, rfl, hs⟩
      rw [State.Before.kind hs]
      exact hafter
  | cons n names ih =>
      have hdot : s.kind = .dot := State.Before.kind_spelled hs rfl
      have hname : s.advanced.Before
          (n.lineWords ++ ((names.map ("." :: ·.lineWords)).flatten ++ after)) := by
        have hbehind := State.Before.advanced hs
        simpa using hbehind
      obtain ⟨hkind, hbare, hbehind⟩ := hname.leaf (hnames n (by simp))
      obtain ⟨names', s₁, hnames', hsame, hs₁⟩ := ih (fun m hm => hnames m (by simp [hm])) hbehind
      exact ⟨s.advanced.leaf .identifier :: names', s₁, .moreSegments hdot hkind hnames',
        .cons hbare hsame, hs₁⟩

end ScriptSyntax
