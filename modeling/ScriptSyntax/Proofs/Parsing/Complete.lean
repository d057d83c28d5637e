import ScriptSyntax.Proofs.Parsing.Accepts

/-!
The parser reads every well-formed tree back from its words: `parse_printed`.
-/

namespace ScriptSyntax

/-- Wherever the words of the node are next, the part takes the node from them; an expression may be
followed by further operators. -/
def Part.Takes (part : Part) (n : Node) : Prop :=
  match part with
  | .expression power => n.Climbs power
  | _ => part.Accepts n

namespace Node

theorem nesting_within {depth limit : Nat} {nodes : List Node}
    (h : depth + highest (nodes.map nesting) ≤ limit) : ∀ n ∈ nodes, depth + n.nesting ≤ limit := by
  intro n hn
  have hlevels : n.nesting ≤ highest (nodes.map nesting) := le_highest (List.mem_map_of_mem hn)
  omega

namespace WellFormed

variable {n : Node} {power : BindingPower}

theorem accepts (h : WellFormed (.expression power) n) (htakes : n.Climbs power) :
    (Part.expression power).Accepts n :=
  htakes.accepts (nesting_pos_of_expression h)

theorem beginsLine (h : WellFormed (.expression power) n) : n.BeginsLine := by
  refine h.starts.mono fun kind hkind => ?_
  exact (starts_statement (.inl hkind)).1

theorem accepts_name (h : WellFormed .name n) : Part.name.Accepts n := by
  intro s after hs _ _
  obtain ⟨hkind, hbare, hbehind⟩ := hs.leaf h
  exact ⟨s.leaf .identifier, s.advanced, .identifier hkind, hbare, hbehind⟩

theorem items_expression {values : List Node}
    (hvalues : ∀ value ∈ values, WellFormed (.expression .lowest) value)
    (htakes : ∀ value ∈ values, value.Climbs .lowest) :
    ∀ value ∈ values, Item.expression.part.Accepts value ∧ value.BeginsLine :=
  fun value hvalue => ⟨(hvalues value hvalue).accepts (htakes value hvalue),
    (hvalues value hvalue).beginsLine⟩

theorem items_entry {entries : List Node} (hentries : ∀ entry ∈ entries, WellFormed .entry entry)
    (haccepts : ∀ entry ∈ entries, Part.entry.Accepts entry) :
    ∀ entry ∈ entries, Item.entry.part.Accepts entry ∧ entry.BeginsLine := by
  intro entry hentry
  refine ⟨haccepts entry hentry, (hentries entry hentry).starts.mono fun kind hkind => ?_⟩
  rw [show kind = .string from hkind]
  rfl

theorem items_name {names : List Node} (hnames : ∀ name ∈ names, WellFormed .name name) :
    ∀ name ∈ names, Item.name.part.Accepts name ∧ name.BeginsLine := by
  intro name hname
  refine ⟨(hnames name hname).accepts_name, (hnames name hname).starts.mono fun kind hkind => ?_⟩
  rw [show kind = .identifier from hkind]
  rfl

end WellFormed

end Node

open Node

/-! ### Operands -/

section
variable {span : Span}

theorem accepts_literal {token : TokenKind} {kind : NodeKind} {text : String}
    (hkind : Parser.literalKind? token = some kind) (htext : token.Writes text) :
    (Part.operand .literal).Accepts ⟨kind, [], span, some text⟩ := by
  intro s after hs _ _
  have hwords : lineWords ⟨kind, [], span, some text⟩ = [text] := by
    unfold Parser.literalKind? at hkind
    split at hkind <;> cases hkind
    all_goals
      rw [lineWords_mk]
      rfl
  rw [hwords] at hs
  have htoken : Parser.literalKind? s.kind = some kind := by
    rw [hs.kind_eq htext]
    exact hkind
  refine ⟨s.leaf kind, s.advanced, .literal htoken, ?_, hs.advanced⟩
  show Node.bare ⟨kind, [], s.current.span, some s.current.text⟩ = _
  rw [bare_mk, bare_mk, State.Before.text hs]

theorem accepts_name_operand {n : Node} (hname : WellFormed .name n) :
    (Part.operand .name).Accepts n := by
  intro s after hs hend _
  obtain ⟨hkind, hbare, hbehind⟩ := hs.leaf hname
  refine ⟨s.leaf .identifier, s.advanced, .name hkind ?_, hbare, hbehind⟩
  rw [hbehind.kind]
  exact hend.1

theorem accepts_call {callee : Node} {values : List Node} (hcallee : WellFormed .name callee)
    (hvalues : ∀ value ∈ values, Item.expression.part.Accepts value ∧ value.BeginsLine) :
    (Part.operand .name).Accepts ⟨.functionCall, callee :: values, span, none⟩ := by
  intro s after hs _ hdepth
  simp only [Part.Fits, nesting_mk, levelsAround, List.map_cons, List.tail_cons] at hdepth
  have hwords : s.Before (callee.lineWords ++
      ("(" :: [","].intercalate (values.map lineWords) ++ ")" :: after)) := by
    rw [lineWords_mk] at hs
    simpa [arrange] using hs
  obtain ⟨hkind, hbare, hbehind⟩ := hwords.leaf hcallee
  obtain ⟨values', s', hvalues', hsame, hs'⟩ := accepts_list .leftParen rfl rfl true rfl hvalues hbehind
    (nesting_within (by rw [State.depth_advanced]; omega))
  exact ⟨_, s', .call hkind hvalues', SameNodes.bare (.cons hbare hsame) _ _ _ _, hs'⟩

theorem accepts_array {elements : List Node}
    (helements : ∀ n ∈ elements, Item.expression.part.Accepts n ∧ n.BeginsLine) :
    (Part.operand .array).Accepts ⟨.arrayLit, elements, span, none⟩ := by
  intro s after hs _ hdepth
  simp only [Part.Fits, nesting_mk, levelsAround] at hdepth
  have hwords : s.Before ("[" :: [","].intercalate (elements.map lineWords) ++ "]" :: after) := by
    rw [lineWords_mk] at hs
    simpa [arrange] using hs
  obtain ⟨elements', s', helements', hsame, hs'⟩ :=
    accepts_list .leftBracket rfl rfl true rfl helements hwords (nesting_within (by omega))
  exact ⟨_, s', .array helements', hsame.bare _ _ _ _, hs'⟩

theorem accepts_object {entries : List Node}
    (hentries : ∀ n ∈ entries, Item.entry.part.Accepts n ∧ n.BeginsLine) :
    (Part.operand .object).Accepts ⟨.objectLit, entries, span, none⟩ := by
  intro s after hs _ hdepth
  simp only [Part.Fits, nesting_mk, levelsAround] at hdepth
  have hwords : s.Before
      ("\x7b" :: [","].intercalate (entries.map lineWords) ++ "\x7d" :: after) := by
    rw [lineWords_mk] at hs
    simpa [arrange] using hs
  obtain ⟨entries', s', hentries', hsame, hs'⟩ :=
    accepts_list .leftBrace rfl rfl true rfl hentries hwords (nesting_within (by omega))
  exact ⟨_, s', .object hentries', hsame.bare _ _ _ _, hs'⟩

theorem accepts_lambda {parameters body : Node} (hparameters : Part.parameters.Accepts parameters)
    (hbody : Part.block.Accepts body) :
    (Part.operand .lambda).Accepts ⟨.lambda, [parameters, body], span, none⟩ := by
  intro s after hs _ hdepth
  simp only [Part.Fits, nesting_mk, levelsAround, List.map_cons, List.map_nil, highest_cons] at hdepth
  have hwords : s.Before ("fn" :: (parameters.lineWords ++ (body.lineWords ++ after))) := by
    rw [lineWords_mk] at hs
    simpa [arrange] using hs
  obtain ⟨parameters', s₁, hparameters', hsame, hs₁⟩ :=
    hparameters s.advanced _ hwords.advanced trivial
      (by rw [State.depth_advanced]; show _ ≤ nestingLimit; omega)
  have hdepth₁ : s₁.depth = s.depth := by simpa using hparameters'.depth rfl
  obtain ⟨body', s₂, hbody', hsame', hs₂⟩ := hbody s₁ after hs₁ trivial
    (by rw [hdepth₁]; show _ ≤ nestingLimit; omega)
  exact ⟨_, s₂, .lambda (hwords.kind_spelled rfl) hparameters' hbody',
    SameNodes.bare (.cons hsame (.cons hsame' .nil)) _ _ _ _, hs₂⟩

theorem accepts_macroCall {sigil : TokenKind} {text : String} {callee : Node} {values : List Node}
    (hsigil : sigil.operandForm? = some .macroCall) (htext : sigil.spelling? = some text)
    (hcallee : WellFormed .name callee)
    (hvalues : ∀ n ∈ values, Item.expression.part.Accepts n ∧ n.BeginsLine) :
    (Part.operand .macroCall).Accepts ⟨.macroCall, callee :: values, span, some text⟩ := by
  intro s after hs _ hdepth
  simp only [Part.Fits, nesting_mk, levelsAround, List.map_cons, List.tail_cons] at hdepth
  have hwords : s.Before (text :: (callee.lineWords ++
      ("(" :: [","].intercalate (values.map lineWords) ++ ")" :: after))) := by
    rw [lineWords_mk] at hs
    simpa [arrange] using hs
  have hkind : s.kind.operandForm? = some .macroCall := by
    rw [hwords.kind_spelled htext]
    exact hsigil
  obtain ⟨hname, hbare, hbehind⟩ := hwords.advanced.leaf hcallee
  obtain ⟨values', s', hvalues', hsame, hs'⟩ :=
    accepts_list .leftParen rfl rfl true rfl hvalues hbehind
      (nesting_within (by rw [State.depth_advanced, State.depth_advanced]; omega))
  refine ⟨_, s', .macroCall hkind hname hvalues', ?_, hs'⟩
  rw [hwords.text]
  exact SameNodes.bare (.cons hbare hsame) _ _ _ _

theorem accepts_prefixed {operand : Node} {word : String} {s : State} {after : List String}
    (hoperand : (Part.expression .unary).Accepts operand)
    (hs : s.Before (word :: (operand.lineWords ++ after)))
    (hparen : TokenKind.ofWords after ≠ .leftParen)
    (hyields : ∀ next form, (TokenKind.ofWords after).operatorForm? = some (next, form) →
      next ≤ .unary ∧ operand.yields next)
    (hdepth : s.depth + operand.nesting ≤ nestingLimit) :
    ∃ operand' s', Reads true (.expression .unary) [operand'] s.advanced s' ∧
      operand'.bare = operand.bare ∧ s'.Before after := by
  refine hoperand s.advanced after hs.advanced ⟨hparen, fun next form hnext => ?_⟩
    (by rw [State.depth_advanced]; exact hdepth)
  obtain ⟨hle, hoperand⟩ := hyields next form hnext
  exact ⟨Nat.not_lt.mpr hle, hoperand⟩

theorem accepts_awaitExpr {operand : Node} (hoperand : (Part.expression .unary).Accepts operand) :
    (Part.operand .awaitExpr).Accepts ⟨.awaitExpr, [operand], span, none⟩ := by
  intro s after hs hend hdepth
  simp only [Part.Fits, nesting_mk, levelsAround, List.map_cons, List.map_nil, highest_cons] at hdepth
  have hwords : s.Before ("await" :: (operand.lineWords ++ after)) := by
    rw [lineWords_mk] at hs
    simpa [arrange] using hs
  obtain ⟨operand', s', hoperand', hbare, hs'⟩ := accepts_prefixed hoperand hwords hend.1
    (fun next form hnext => by simpa [yields] using hend.2 next form hnext) (by omega)
  exact ⟨_, s', .awaitExpr (hwords.kind_spelled rfl) hoperand',
    SameNodes.bare (.cons hbare .nil) _ _ _ _, hs'⟩

theorem accepts_bang {word : TokenKind} {text : String} {operand : Node}
    (hword : word.operandForm? = some .bang) (htext : word.spelling? = some text)
    (hoperand : (Part.expression .unary).Accepts operand) :
    (Part.operand .bang).Accepts ⟨.unaryBang, [operand], span, some text⟩ := by
  intro s after hs hend hdepth
  simp only [Part.Fits, nesting_mk, levelsAround, List.map_cons, List.map_nil, highest_cons] at hdepth
  have hwords : s.Before (text :: (operand.lineWords ++ after)) := by
    rw [lineWords_mk] at hs
    simpa [arrange] using hs
  have hkind : s.kind.operandForm? = some .bang := by
    rw [hwords.kind_spelled htext]
    exact hword
  obtain ⟨operand', s', hoperand', hbare, hs'⟩ := accepts_prefixed hoperand hwords hend.1
    (fun next form hnext => by simpa [yields] using hend.2 next form hnext) (by omega)
  refine ⟨_, s', .bang hkind hoperand', ?_, hs'⟩
  rw [hwords.text]
  exact SameNodes.bare (.cons hbare .nil) _ _ _ _

end

/-! ### Operators -/

theorem climbs_operand {form : OperandForm} {n : Node} {power : BindingPower}
    (hoperand : WellFormed (.operand form) n) (haccepts : (Part.operand form).Accepts n) :
    n.Climbs power := by
  intro s after hs hparen hyields hdepth
  have hform : s.kind.operandForm? = some form := by
    rw [hs.kind]
    exact (hoperand.starts.append after).ofWords
  obtain ⟨n', s', hn', hbare, hs'⟩ := haccepts s.entered after hs.entered ⟨hparen, hyields⟩ (by
    rw [State.depth_entered]
    show _ ≤ nestingLimit + 1
    omega)
  have hdepth' : s'.depth = s.depth + n.opened := by
    rw [opened_operand hoperand]
    exact hn'.depth rfl
  exact ⟨form, n', n', s', s', hform, hn', fun _ _ hclimb => hclimb, hbare, hs', hdepth'⟩

theorem climbs_fold {power next : BindingPower} {form : OperatorForm} (token : TokenKind)
    {left n : Node} {word : String} {behind : List String} (hleft : left.Climbs power)
    (hkind : token.operatorForm? = some (next, form)) (hword : token.spelling? = some word)
    (hpower : power < next) (hyields : left.yields next)
    (hwords : n.lineWords = left.lineWords ++ word :: behind)
    (hopened : n.opened = left.opened + 1) (hnesting : left.nesting ≤ n.nesting)
    (hlevel : left.opened + 1 < n.nesting)
    (hfolds : ∀ (s : State) (left' : Node) (after : List String),
      s.Before (word :: (behind ++ after)) → TokenKind.ofWords after ≠ .leftParen →
      (∀ next form, (TokenKind.ofWords after).operatorForm? = some (next, form) → n.yields next) →
      s.depth + n.nesting ≤ nestingLimit + left.opened + 1 → left'.bare = left.bare →
        ∃ folded s', Reads true (.continuation next left' form) [folded] s s' ∧
          folded.bare = n.bare ∧ s'.Before after) :
    n.Climbs power := by
  intro s after hs hparen hafter hdepth
  rw [hwords, List.append_assoc, List.cons_append] at hs
  have htoken : TokenKind.ofWords (word :: (behind ++ after)) = token := ofWords_spelled hword _
  obtain ⟨first, operand, left', s₁, s₂, hfirst, hoperand, hclimb, hbare, hs₂, hdepth₂⟩ :=
    hleft s _ hs
      (by
        rw [htoken]
        rintro rfl
        cases hkind)
      (by
        intro other form' hother
        rw [htoken, hkind] at hother
        cases hother
        exact hyields)
      (by omega)
  have hpending : s₂.pending power = some (next, form) := by
    rw [State.pending, hs₂.kind, htoken, hkind]
    simp [Option.filter, hpower]
  have hentered : s₂.depth < nestingLimit := by omega
  obtain ⟨folded, s₃, hfolded, hfoldedBare, hs₃⟩ := hfolds s₂.entered left' after hs₂.entered hparen
    hafter (by rw [State.depth_entered]; omega) hbare
  have hdepth₃ : s₃.depth = s₂.depth + 1 := hfolded.depth rfl
  refine ⟨first, operand, folded, s₁, s₃, hfirst, hoperand, fun node s₄ hrest => ?_, hfoldedBare,
    hs₃, by omega⟩
  exact hclimb node s₄ (.climbFold hpending hentered hfolded hrest)

theorem climbs_operation {power next : BindingPower} {token : TokenKind} {form : OperatorForm}
    {text : String} {left right : Node} {span : Span} (hform : form ≠ .subscript)
    (hkind : token.operatorForm? = some (next, form)) (htext : token.spelling? = some text)
    (hpower : power < next) (hleft : left.Climbs power) (hyields : left.yields next)
    (hwell : WellFormed (.expression (form.rightPower next)) right)
    (hright : right.Climbs (form.rightPower next)) :
    Node.Climbs ⟨form.nodeKind, [left, right], span, form.literal? text⟩ power := by
  have hpos := nesting_pos_of_expression hwell
  have hnesting := nesting_operation form left right span (form.literal? text)
  refine climbs_fold token hleft hkind htext hpower hyields
    (lineWords_operation hkind hform htext left right span)
    (opened_operation hform hkind htext left right span) (by omega) (by omega) ?_
  intro s left' after hs hparen hafter hdepth hbare
  have hbehind : s.advanced.Before (right.lineWords ++ after) := hs.advanced
  have hend : (Part.expression (form.rightPower next)).EndsBefore right after := by
    refine ⟨hparen, fun other form' hother => ?_⟩
    have hboth := hafter other form' hother
    rw [yields_operation hform hkind htext] at hboth
    simp only [Bool.and_eq_true, decide_eq_true_eq] at hboth
    exact ⟨Nat.not_lt.mpr hboth.1, hboth.2⟩
  obtain ⟨right', s', hright', hbare', hs'⟩ := hwell.accepts hright s.advanced after hbehind hend (by
    rw [State.depth_advanced]
    show _ ≤ nestingLimit
    omega)
  rw [← hbehind.pastNewlines_begins hwell.beginsLine] at hright'
  have htoken : s.kind.operatorForm? = some (next, form) := by
    rw [hs.kind_spelled htext]
    exact hkind
  refine ⟨_, s', .operation hform htoken hright', ?_, hs'⟩
  rw [hs.text]
  exact SameNodes.bare (.cons hbare (.cons hbare' .nil)) _ _ _ _

theorem climbs_subscript {power : BindingPower} {left index : Node} {span : Span}
    (hpower : power < .member) (hleft : left.Climbs power) (hyields : left.yields .member)
    (hwell : WellFormed (.expression .lowest) index) (hindex : index.Climbs .lowest) :
    Node.Climbs ⟨.subscript, [left, index], span, none⟩ power := by
  have hpos := nesting_pos_of_expression hwell
  have hnesting : Node.nesting ⟨.subscript, [left, index], span, none⟩ =
      max left.nesting (left.opened + 1 + index.nesting) :=
    nesting_operation .subscript left index span none
  have hopened : opened ⟨.subscript, [left, index], span, none⟩ = left.opened + 1 := by
    rw [opened]
    rfl
  refine climbs_fold .leftBracket hleft rfl rfl hpower hyields (lineWords_subscript left index span)
    hopened (by omega) (by omega) ?_
  intro s left' after hs hparen hafter hdepth hbare
  have hbehind : (s.advanced.opened .rightBracket true).Before (index.lineWords ++ "]" :: after) := by
    have hopening := hs.advanced.opened .rightBracket true
    simpa using hopening
  obtain ⟨hends, hseparator, -⟩ :=
    endsExpression_of_closer? (show TokenKind.leftBracket.closer? = some .rightBracket from rfl)
  have hcloser : TokenKind.ofWords ("]" :: after) = .rightBracket := ofWords_spelled rfl after
  obtain ⟨index', s₁, hindex', hbare', hs₁⟩ := hwell.accepts hindex _ _ hbehind
    (TokenKind.EndsExpression.endsBefore (by rw [hcloser]; exact hends) _ _) (by
      rw [State.depth_opened, State.depth_advanced]
      show _ ≤ nestingLimit
      omega)
  rw [← hbehind.pastNewlines_begins hwell.beginsLine] at hindex'
  have hlines : s₁.pastNewlines = s₁ := hs₁.pastNewlines (by simp [hcloser])
  have hclosing : s₁.pastNewlines.kind = .rightBracket := by
    rw [hlines]
    exact hs₁.kind_spelled rfl
  refine ⟨_, s₁.pastNewlines.advanced.closed, .subscript (hs.kind_spelled rfl) hindex' hclosing,
    SameNodes.bare (.cons hbare (.cons hbare' .nil)) _ _ _ _, ?_⟩
  rw [hlines]
  exact hs₁.advanced.closed

/-! ### Parts of expressions and statements -/

section
variable {span : Span}

theorem accepts_entry {text : String} {value : Node} {keySpan : Span}
    (htext : TokenKind.string.Writes text) (hvalue : (Part.expression .lowest).Accepts value)
    (hbegins : value.BeginsLine) :
    Part.entry.Accepts ⟨.keyValuePair, [⟨.stringLit, [], keySpan, some text⟩, value], span, none⟩ := by
  intro s after hs hend hdepth
  simp only [Part.Fits, nesting_mk, levelsAround, List.map_cons, List.map_nil, List.tail_cons,
    highest_cons] at hdepth
  have hwords : s.Before (text :: ":" :: (value.lineWords ++ after)) := by
    rw [lineWords_mk] at hs
    simpa [arrange, lineWords_mk] using hs
  have hkind : s.kind = .string := hwords.kind_eq htext
  obtain ⟨value', s', hvalue', hbare, hs'⟩ := hvalue _ after hwords.advanced.advanced
    (TokenKind.EndsExpression.endsBefore hend _ _) (by
      rw [State.depth_advanced, State.depth_advanced]
      show _ ≤ nestingLimit
      omega)
  rw [← hwords.advanced.advanced.pastNewlines_begins hbegins] at hvalue'
  have hkey : (s.leaf .stringLit).bare = Node.bare ⟨.stringLit, [], keySpan, some text⟩ := by
    show Node.bare ⟨.stringLit, [], s.current.span, some s.current.text⟩ = _
    rw [bare_mk, bare_mk, hwords.text]
  exact ⟨_, s', .entry hkind (hwords.advanced.kind_spelled rfl) hvalue',
    SameNodes.bare (.cons hkey (.cons hbare .nil)) _ _ _ _, hs'⟩

theorem accepts_parameters {names : List Node} (hnames : ∀ name ∈ names, WellFormed .name name) :
    Part.parameters.Accepts ⟨.parameterList, names, span, none⟩ := by
  intro s after hs _ _
  have hwords : s.Before ("(" :: [","].intercalate (names.map lineWords) ++ ")" :: after) := by
    rw [lineWords_mk] at hs
    simpa [arrange] using hs
  obtain ⟨names', s', hnames', hsame, hs'⟩ :=
    accepts_list .leftParen rfl rfl false rfl (WellFormed.items_name hnames) hwords
      (fun _ _ => trivial)
  exact ⟨_, s', .parameters hnames', hsame.bare _ _ _ _, hs'⟩

theorem accepts_block {body : List Node} (hwell : ∀ n ∈ body, WellFormed .statement n)
    (hbody : ∀ n ∈ body, Part.statement.Accepts n) :
    Part.block.Accepts ⟨.block, body, span, none⟩ := by
  intro s after hs _ hdepth
  simp only [Part.Fits, nesting_mk, levelsAround] at hdepth
  have hentered : s.depth < nestingLimit := by omega
  have hwords : s.Before ("\x7b" :: linesOf body ("\x7d" :: after)) := by
    rw [lineWords_mk] at hs
    simpa [arrange, linesOf, Function.comp_def] using hs
  have hinside := hwords.entered.advanced.opened .rightBrace false
  have hcloser : TokenKind.ofWords ("\x7d" :: after) = .rightBrace := ofWords_spelled rfl after
  have hends : EndsLine ("\x7d" :: after) := ⟨by rw [hcloser]; rfl, by rw [hcloser]; rfl⟩
  have hlines := endsLine_linesOf (fun n hn => (hwell n hn).starts) hends
  rw [← hinside.pastSeparators hlines.1] at hinside
  obtain ⟨body', s₁, hbody', hsame, hs₁⟩ := accepts_statements
    (fun n hn => ⟨hbody n hn, (hwell n hn).starts⟩) (.inr ⟨rfl, hcloser⟩) hinside
    (nesting_within (by
      rw [State.depth_opened, State.depth_advanced, State.depth_entered]
      omega))
  exact ⟨_, s₁.closed.advanced.leaving s.depth,
    .block hentered (hwords.kind_spelled rfl) hbody' (hs₁.kind_spelled rfl), hsame.bare _ _ _ _,
    hs₁.closed.advanced.leaving s.depth⟩

end

/-! ### Statements -/

theorem TokenKind.endsExpression_of_assignment {token : TokenKind} {kind : NodeKind}
    (h : Parser.assignmentKind? token = some kind) : token.EndsExpression := by
  unfold Parser.assignmentKind? at h
  split at h <;> cases h
  all_goals exact ⟨nofun, rfl⟩

theorem TokenKind.endsExpression_newline : TokenKind.newline.EndsExpression := ⟨nofun, rfl⟩

theorem endsExpression_ofWords_newline (more : List String) :
    (TokenKind.ofWords ("\n" :: more)).EndsExpression := by
  rw [TokenKind.ofWords, TokenKind.writes_newline.ofWord]
  exact TokenKind.endsExpression_newline

section
variable {span : Span}

theorem accepts_bare {value : Node} (hvalue : (Part.expression .assignment).Accepts value) :
    Part.assignment.Accepts ⟨.expressionStmt, [value], span, none⟩ := by
  rintro s _ hs ⟨more, rfl, -⟩ hdepth
  simp only [Part.Fits, nesting_mk, levelsAround, List.map_cons, List.map_nil, highest_cons] at hdepth
  have hwords : s.Before (value.lineWords ++ "\n" :: more) := by
    rw [lineWords_mk] at hs
    simpa [arrange] using hs
  obtain ⟨value', s', hvalue', hbare, hs'⟩ := hvalue s _ hwords
    ((endsExpression_ofWords_newline more).endsBefore _ _) (by
      show _ ≤ nestingLimit
      omega)
  refine ⟨_, s', .bare hvalue' ?_, SameNodes.bare (.cons hbare .nil) _ _ _ _, hs'⟩
  rw [hs'.kind_eq TokenKind.writes_newline]
  rfl

theorem accepts_assign {token : TokenKind} {text : String} {kind : NodeKind} {target value : Node}
    (hkind : Parser.assignmentKind? token = some kind) (htext : token.spelling? = some text)
    (htarget : (Part.expression .assignment).Accepts target)
    (hvalid : Parser.isValidTarget kind target)
    (hvalue : (Part.expression .assignment).Accepts value) :
    Part.assignment.Accepts
      ⟨kind, [target, value], span, if kind = .compoundAssign then some text else none⟩ := by
  rintro s _ hs ⟨more, rfl, -⟩ hdepth
  have hlevels : max target.nesting value.nesting ≤
      nesting ⟨kind, [target, value], span, if kind = .compoundAssign then some text else none⟩ := by
    rw [nesting_mk]
    unfold Parser.assignmentKind? at hkind
    split at hkind <;> cases hkind
    all_goals simp [levelsAround]
  have hlimit : s.depth + max target.nesting value.nesting ≤ nestingLimit :=
    Nat.le_trans (Nat.add_le_add_left hlevels _) hdepth
  rw [lineWords_assign hkind htext, List.append_assoc, List.cons_append] at hs
  have htoken : TokenKind.ofWords (text :: (value.lineWords ++ "\n" :: more)) = token :=
    ofWords_spelled htext _
  obtain ⟨target', s₁, htarget', hbare, hs₁⟩ := htarget s _ hs
    (TokenKind.EndsExpression.endsBefore
      (by rw [htoken]; exact TokenKind.endsExpression_of_assignment hkind) _ _) (by
      show _ ≤ nestingLimit
      omega)
  have hdepth₁ : s₁.depth = s.depth := htarget'.depth rfl
  obtain ⟨value', s₂, hvalue', hbare', hs₂⟩ := hvalue s₁.advanced _ hs₁.advanced
    ((endsExpression_ofWords_newline more).endsBefore _ _) (by
      rw [State.depth_advanced, hdepth₁]
      show _ ≤ nestingLimit
      omega)
  have hassign : Parser.assignmentKind? s₁.kind = some kind := by
    rw [hs₁.kind_spelled htext]
    exact hkind
  refine ⟨_, s₂, .assign htarget' hassign hvalue' ?_, ?_, hs₂⟩
  · rw [isValidTarget_of_bare hbare, hvalid]
    rfl
  · rw [hs₁.text]
    exact SameNodes.bare (.cons hbare (.cons hbare' .nil)) _ _ _ _

theorem accepts_signature {name parameters body : Node} {s : State} {after : List String}
    (hname : WellFormed .name name) (hparameters : Part.parameters.Accepts parameters)
    (hbody : Part.block.Accepts body)
    (hs : s.Before (name.lineWords ++ (parameters.lineWords ++ (body.lineWords ++ after))))
    (hdepth : s.depth + max parameters.nesting body.nesting ≤ nestingLimit) :
    ∃ parameters' body' s₁ s₂, s.kind = .identifier ∧
      Reads true .parameters [parameters'] s.advanced s₁ ∧ Reads true .block [body'] s₁ s₂ ∧
      SameNodes [s.leaf .identifier, parameters', body'] [name, parameters, body] ∧
      s₂.Before after := by
  obtain ⟨hkind, hbare, hbehind⟩ := hs.leaf hname
  obtain ⟨parameters', s₁, hparameters', hsame, hs₁⟩ := hparameters _ _ hbehind trivial (by
    rw [State.depth_advanced]
    show _ ≤ nestingLimit
    omega)
  have hdepth₁ : s₁.depth = s.depth := by simpa using hparameters'.depth rfl
  obtain ⟨body', s₂, hbody', hsame', hs₂⟩ := hbody s₁ after hs₁ trivial (by
    rw [hdepth₁]
    show _ ≤ nestingLimit
    omega)
  exact ⟨parameters', body', s₁, s₂, hkind, hparameters', hbody',
    .cons hbare (.cons hsame (.cons hsame' .nil)), hs₂⟩

theorem accepts_functionDecl {isAsync : Bool} {name parameters body : Node}
    (hname : WellFormed .name name) (hparameters : Part.parameters.Accepts parameters)
    (hbody : Part.block.Accepts body) :
    (Part.form .functionDecl).Accepts
      ⟨.functionDecl, [name, parameters, body], span, if isAsync then some "async" else none⟩ := by
  intro s after hs _ hdepth
  simp only [Part.Fits, nesting_mk, levelsAround, List.map_cons, List.map_nil, List.tail_cons,
    highest_cons, highest_nil] at hdepth
  have hwords : ∃ s₁, FunctionWords s isAsync s₁ ∧ s₁.depth = s.depth ∧
      s₁.Before (name.lineWords ++ (parameters.lineWords ++ (body.lineWords ++ after))) := by
    rw [lineWords_mk] at hs
    cases isAsync with
    | false =>
        have hplain : s.Before
            ("fn" :: (name.lineWords ++ (parameters.lineWords ++ (body.lineWords ++ after)))) := by
          simpa [arrange] using hs
        have hnext : s.advanced.kind ≠ .keyword .asyncKw := by
          simp [(hplain.advanced.leaf hname).1]
        exact ⟨s.advanced, .plain (hplain.kind_spelled rfl) hnext, s.depth_advanced,
          hplain.advanced⟩
    | true =>
        have hasync : s.Before ("async" :: "fn" ::
            (name.lineWords ++ (parameters.lineWords ++ (body.lineWords ++ after)))) := by
          simpa [arrange] using hs
        refine ⟨s.advanced.advanced, ?_, by simp, hasync.advanced.advanced⟩
        exact .asyncFirst (hasync.kind_spelled rfl) (hasync.advanced.kind_spelled rfl)
  obtain ⟨s₁, hfirst, hdepth₁, hs₁⟩ := hwords
  obtain ⟨parameters', body', s₂, s₃, hkind, hparameters', hbody', hsame, hs₃⟩ :=
    accepts_signature hname hparameters hbody hs₁ (by omega)
  exact ⟨_, s₃, .functionDecl hfirst hkind hparameters' hbody', hsame.bare _ _ _ _, hs₃⟩

theorem accepts_macroDecl {name parameters body : Node} (hname : WellFormed .name name)
    (hparameters : Part.parameters.Accepts parameters) (hbody : Part.block.Accepts body) :
    (Part.form .macroDecl).Accepts ⟨.macroDecl, [name, parameters, body], span, none⟩ := by
  intro s after hs _ hdepth
  simp only [Part.Fits, nesting_mk, levelsAround, List.map_cons, List.map_nil, List.tail_cons,
    highest_cons, highest_nil] at hdepth
  have hwords : s.Before
      ("macro" :: (name.lineWords ++ (parameters.lineWords ++ (body.lineWords ++ after)))) := by
    rw [lineWords_mk] at hs
    simpa [arrange] using hs
  obtain ⟨parameters', body', s₁, s₂, hkind, hparameters', hbody', hsame, hs₂⟩ :=
    accepts_signature hname hparameters hbody hwords.advanced (by
      rw [State.depth_advanced]
      omega)
  exact ⟨_, s₂, .macroDecl (hwords.kind_spelled rfl) hkind hparameters' hbody',
    hsame.bare _ _ _ _, hs₂⟩

theorem accepts_field {name value : Node} (hname : WellFormed .name name)
    (hvalue : (Part.expression .lowest).Accepts value) :
    Part.field.Accepts ⟨.structField, [name, value], span, none⟩ := by
  intro s after hs hend hdepth
  simp only [Part.Fits, nesting_mk, levelsAround, List.map_cons, List.map_nil, List.tail_cons,
    highest_cons, highest_nil] at hdepth
  have hwords : s.Before (name.lineWords ++ ("=" :: (value.lineWords ++ after))) := by
    rw [lineWords_mk] at hs
    simpa [arrange] using hs
  obtain ⟨hkind, hbare, hbehind⟩ := hwords.leaf hname
  have hends : (TokenKind.ofWords after).EndsExpression := by
    rw [show TokenKind.ofWords after = .newline from hend]
    exact TokenKind.endsExpression_newline
  obtain ⟨value', s', hvalue', hbare', hs'⟩ := hvalue _ after hbehind.advanced
    (hends.endsBefore _ _) (by
      rw [State.depth_advanced, State.depth_advanced]
      show _ ≤ nestingLimit
      omega)
  exact ⟨_, s', .field hkind (hbehind.kind_spelled rfl) hvalue',
    SameNodes.bare (.cons hbare (.cons hbare' .nil)) _ _ _ _, hs'⟩

theorem accepts_structDecl {name : Node} {fields methods : List Node} (hname : WellFormed .name name)
    (hfields : ∀ n ∈ fields, Part.field.Accepts n ∧ BeginsWith n.lineWords Part.field.Starts)
    (hmethods : ∀ n ∈ methods, (Part.form .functionDecl).Accepts n ∧
      BeginsWith n.lineWords (Part.form .functionDecl).Starts) :
    (Part.form .structDecl).Accepts ⟨.structDecl, name :: (fields ++ methods), span, none⟩ := by
  intro s after hs _ hdepth
  simp only [Part.Fits, nesting_mk, levelsAround, List.map_cons, List.tail_cons] at hdepth
  have hwords : s.Before ("struct" :: (name.lineWords ++
      ("\x7b" :: linesOf (fields ++ methods) ("\x7d" :: after)))) := by
    rw [lineWords_mk] at hs
    simpa [arrange, linesOf, Function.comp_def] using hs
  obtain ⟨hkind, hbare, hbehind⟩ := hwords.advanced.leaf hname
  have hinside := hbehind.advanced.opened .rightBrace false
  have hcloser : TokenKind.ofWords ("\x7d" :: after) = .rightBrace := ofWords_spelled rfl after
  have hends : EndsLine ("\x7d" :: after) := ⟨by rw [hcloser]; rfl, by rw [hcloser]; rfl⟩
  have hlines : EndsLine (linesOf (fields ++ methods) ("\x7d" :: after)) := by
    refine endsLine_linesOf (fun n hn => ?_) hends
    rcases List.mem_append.mp hn with hn | hn
    · exact starts_statement_of_field (hfields n hn).2
    · exact starts_statement_of_form (hmethods n hn).2
  rw [← hinside.pastSeparators hlines.1] at hinside
  obtain ⟨members', s₁, hmembers', hsame, hs₁⟩ := accepts_members hfields hmethods hcloser hinside
    (nesting_within (by simpa using hdepth))
  exact ⟨_, s₁.closed.advanced,
    .structDecl (hwords.kind_spelled rfl) hkind (hbehind.kind_spelled rfl) hmembers'
      (hs₁.kind_spelled rfl), SameNodes.bare (.cons hbare hsame) _ _ _ _, hs₁.closed.advanced⟩

theorem accepts_path {path : Node} (hpath : WellFormed .path path) : Part.path.Accepts path := by
  intro s after hs hend _
  cases hpath with
  | @address scheme text _ addressSpan hscheme htext =>
      have hwords : s.Before (scheme :: ":" :: text :: after) := by
        rw [lineWords_mk] at hs
        simpa [arrange, lineWords_mk] using hs
      have hstring : s.advanced.advanced.kind = .string := hwords.advanced.advanced.kind_eq htext
      refine ⟨_, _, .knownPath (hwords.kind_eq (writes_scheme hscheme)) (hwords.advanced.kind_spelled rfl)
        (.address hstring) ?_, ?_, hwords.advanced.advanced.advanced⟩
      · rw [hwords.text]
        exact List.contains_iff_mem.mpr hscheme
      · rw [hwords.text]
        refine SameNodes.bare (.cons ?_ .nil) _ _ _ _
        show Node.bare ⟨.stringLit, [], _, some s.advanced.advanced.current.text⟩ = _
        rw [bare_mk, bare_mk, hwords.advanced.advanced.text]
  | @segments scheme names _ hscheme hnames hsome =>
      obtain ⟨first, rest, rfl⟩ := List.exists_cons_of_ne_nil hsome
      have hwords : s.Before (scheme :: ":" :: (first.lineWords ++
          ((rest.map ("." :: ·.lineWords)).flatten ++ after))) := by
        rw [lineWords_mk] at hs
        simpa [arrange, intercalate_cons, Function.comp_def] using hs
      obtain ⟨hkind, hbare, hbehind⟩ := hwords.advanced.advanced.leaf (hnames first (by simp))
      obtain ⟨rest', s', hrest', hsame, hs'⟩ :=
        accepts_moreSegments (fun n hn => hnames n (by simp [hn])) hend hbehind
      refine ⟨_, s', .knownPath (hwords.kind_eq (writes_scheme hscheme)) (hwords.advanced.kind_spelled rfl)
        (.segments hkind hrest') ?_, ?_, hs'⟩
      · rw [hwords.text]
        exact List.contains_iff_mem.mpr hscheme
      · rw [hwords.text]
        exact SameNodes.bare (.cons hbare hsame) _ _ _ _

theorem accepts_importPath {path : Node} (hpath : WellFormed .path path) :
    (Part.form .importStmt).Accepts ⟨.importStmt, [path], span, none⟩ := by
  rintro s _ hs ⟨more, rfl, -⟩ _
  have hwords : s.Before ("use" :: (path.lineWords ++ "\n" :: more)) := by
    rw [lineWords_importStmt hpath.kind_of_path] at hs
    simpa using hs
  have hnewline : TokenKind.ofWords ("\n" :: more) = .newline := TokenKind.writes_newline.ofWord
  obtain ⟨path', s', hpath', hbare, hs'⟩ := accepts_path hpath s.advanced _ hwords.advanced
    (by show _ ≠ _; rw [hnewline]; exact nofun) trivial
  refine ⟨_, s', .importPath (hwords.kind_spelled rfl) hpath' ?_,
    SameNodes.bare (.cons hbare .nil) _ _ _ _, hs'⟩
  rw [hs'.kind, hnewline]
  exact nofun

theorem accepts_importAs {path name : Node} (hpath : WellFormed .path path)
    (hname : WellFormed .name name) :
    (Part.form .importStmt).Accepts ⟨.importStmt, [path, name], span, none⟩ := by
  intro s after hs _ _
  have hwords : s.Before ("use" :: (path.lineWords ++ "as" :: (name.lineWords ++ after))) := by
    rw [lineWords_importStmt hpath.kind_of_path] at hs
    simpa using hs
  have has : TokenKind.ofWords ("as" :: (name.lineWords ++ after)) = .keyword .asKw :=
    ofWords_spelled rfl _
  obtain ⟨path', s', hpath', hbare, hs'⟩ := accepts_path hpath s.advanced _ hwords.advanced
    (by show _ ≠ _; rw [has]; exact nofun) trivial
  obtain ⟨hkind, hbare', hbehind⟩ := hs'.advanced.leaf hname
  exact ⟨_, _, .importAs (hwords.kind_spelled rfl) hpath' (hs'.kind_spelled rfl) hkind,
    SameNodes.bare (.cons hbare (.cons hbare' .nil)) _ _ _ _, hbehind⟩

theorem accepts_importNames {names : List Node} {path : Node}
    (hnames : ∀ name ∈ names, WellFormed .name name) (hsome : names ≠ [])
    (hpath : WellFormed .path path) :
    (Part.form .importStmt).Accepts ⟨.importStmt, names ++ [path], span, none⟩ := by
  rintro s _ hs ⟨more, rfl, -⟩ _
  have hwords : s.Before ("use" :: ("\x7b" :: [","].intercalate (names.map lineWords) ++
      "\x7d" :: "from" :: (path.lineWords ++ "\n" :: more))) := by
    obtain ⟨first, rest, rfl⟩ := List.exists_cons_of_ne_nil hsome
    rw [lineWords_importNames (hnames first (by simp)).kind_of_name] at hs
    simpa using hs
  have hnewline : TokenKind.ofWords ("\n" :: more) = .newline := TokenKind.writes_newline.ofWord
  obtain ⟨names', s₁, hnames', hsame, hs₁⟩ :=
    accepts_list .leftBrace rfl rfl false rfl (WellFormed.items_name hnames) hwords.advanced
      (fun _ _ => trivial)
  obtain ⟨path', s₂, hpath', hbare, hs₂⟩ := accepts_path hpath s₁.advanced _ hs₁.advanced
    (by show _ ≠ _; rw [hnewline]; exact nofun) trivial
  exact ⟨_, s₂, .importNames (hwords.kind_spelled rfl) hnames' (hsame.ne_nil hsome)
    (hs₁.kind_spelled rfl) hpath', (hsame.append (.cons hbare .nil)).bare _ _ _ _, hs₂⟩

theorem accepts_controlled {condition body : Node} {s : State} {after : List String}
    (hcondition : (Part.expression .lowest).Accepts condition)
    (hwell : WellFormed .block body) (hbody : Part.block.Accepts body)
    (hs : s.Before (condition.lineWords ++ (body.lineWords ++ after)))
    (hdepth : s.depth + max condition.nesting body.nesting ≤ nestingLimit) :
    ∃ condition' body' s₁ s₂, Reads true (.expression .lowest) [condition'] s s₁ ∧
      Reads true .block [body'] s₁ s₂ ∧ SameNodes [condition', body'] [condition, body] ∧
      s₂.Before after := by
  have hbrace : TokenKind.ofWords (body.lineWords ++ after) = .leftBrace :=
    (hwell.starts.append after).ofWords
  obtain ⟨condition', s₁, hcondition', hbare, hs₁⟩ := hcondition s _ hs
    (TokenKind.EndsExpression.endsBefore (by rw [hbrace]; exact ⟨nofun, rfl⟩) _ _) (by
      show _ ≤ nestingLimit
      omega)
  have hdepth₁ : s₁.depth = s.depth := hcondition'.depth rfl
  obtain ⟨body', s₂, hbody', hbare', hs₂⟩ := hbody s₁ after hs₁ trivial (by
    rw [hdepth₁]
    show _ ≤ nestingLimit
    omega)
  exact ⟨condition', body', s₁, s₂, hcondition', hbody', .cons hbare (.cons hbare' .nil), hs₂⟩

theorem accepts_forStmt {condition body : Node}
    (hcondition : (Part.expression .lowest).Accepts condition)
    (hwell : WellFormed .block body) (hbody : Part.block.Accepts body) :
    (Part.form .forStmt).Accepts ⟨.forStmt, [condition, body], span, none⟩ := by
  intro s after hs _ hdepth
  simp only [Part.Fits, nesting_mk, levelsAround, List.map_cons, List.map_nil, highest_cons,
    highest_nil] at hdepth
  have hwords : s.Before ("for" :: (condition.lineWords ++ (body.lineWords ++ after))) := by
    rw [lineWords_mk] at hs
    simpa [arrange] using hs
  obtain ⟨condition', body', s₁, s₂, hcondition', hbody', hsame, hs₂⟩ :=
    accepts_controlled hcondition hwell hbody hwords.advanced (by
      rw [State.depth_advanced]
      omega)
  exact ⟨_, s₂, .forStmt (hwords.kind_spelled rfl) hcondition' hbody', hsame.bare _ _ _ _, hs₂⟩

theorem accepts_elifClause {condition body : Node}
    (hcondition : (Part.expression .lowest).Accepts condition)
    (hwell : WellFormed .block body) (hbody : Part.block.Accepts body) :
    (Part.clause false).Accepts ⟨.elifClause, [condition, body], span, none⟩ := by
  intro s after hs _ hdepth
  simp only [Part.Fits, nesting_mk, levelsAround, List.map_cons, List.map_nil, highest_cons,
    highest_nil] at hdepth
  have hwords : s.Before ("elif" :: (condition.lineWords ++ (body.lineWords ++ after))) := by
    rw [lineWords_mk] at hs
    simpa [arrange] using hs
  obtain ⟨condition', body', s₁, s₂, hcondition', hbody', hsame, hs₂⟩ :=
    accepts_controlled hcondition hwell hbody hwords.advanced (by
      rw [State.depth_advanced]
      omega)
  exact ⟨_, s₂, .elifClause (hwords.kind_spelled rfl) hcondition' hbody', hsame.bare _ _ _ _, hs₂⟩

theorem accepts_elseClause {body : Node} (hbody : Part.block.Accepts body) :
    (Part.clause true).Accepts ⟨.elseClause, [body], span, none⟩ := by
  intro s after hs _ hdepth
  simp only [Part.Fits, nesting_mk, levelsAround, List.map_cons, List.map_nil, highest_cons,
    highest_nil] at hdepth
  have hwords : s.Before ("else" :: (body.lineWords ++ after)) := by
    rw [lineWords_mk] at hs
    simpa [arrange] using hs
  obtain ⟨body', s', hbody', hbare, hs'⟩ := hbody _ after hwords.advanced trivial (by
    rw [State.depth_advanced]
    show _ ≤ nestingLimit
    omega)
  exact ⟨_, s', .elseClause (hwords.kind_spelled rfl) hbody',
    SameNodes.bare (.cons hbare .nil) _ _ _ _, hs'⟩

theorem accepts_ifStmt {condition body : Node} {clauses last : List Node}
    (hcondition : (Part.expression .lowest).Accepts condition)
    (hwell : WellFormed .block body) (hbody : Part.block.Accepts body)
    (hclauses : ∀ n ∈ clauses, (Part.clause false).Accepts n ∧
      BeginsWith n.lineWords (Part.clause false).Starts)
    (hlast : ∀ n ∈ last, (Part.clause true).Accepts n ∧
      BeginsWith n.lineWords (Part.clause true).Starts) (hlength : last.length ≤ 1) :
    (Part.form .ifStmt).Accepts
      ⟨.ifStmt, condition :: body :: (clauses ++ last), span, none⟩ := by
  rintro s _ hs ⟨more, rfl, hmore⟩ hdepth
  simp only [Part.Fits, nesting_mk, levelsAround, List.map_cons, highest_cons] at hdepth
  have hwords : s.Before ("if" :: (condition.lineWords ++ (body.lineWords ++
      (((clauses ++ last).map lineWords).flatten ++ "\n" :: more)))) := by
    rw [lineWords_mk] at hs
    simpa [arrange] using hs
  obtain ⟨condition', body', s₁, s₂, hcondition', hbody', hsame, hs₂⟩ :=
    accepts_controlled hcondition hwell hbody hwords.advanced (by
      rw [State.depth_advanced]
      omega)
  have hdepth₂ : s₂.depth = s.depth := by
    have hkept := hbody'.depth rfl
    rw [hkept, hcondition'.depth rfl, State.depth_advanced]
  obtain ⟨clauses', s₃, hclauses', hsame', hs₃⟩ := accepts_clauses hmore hclauses hlast hlength hs₂
    (nesting_within (by
      rw [hdepth₂]
      omega))
  exact ⟨_, s₃, .ifStmt (hwords.kind_spelled rfl) hcondition' hbody' hclauses',
    (hsame.append hsame').bare _ _ _ _, hs₃⟩

theorem accepts_bareReturn : (Part.form .returnStmt).Accepts ⟨.returnStmt, [], span, none⟩ := by
  rintro s _ hs ⟨more, rfl, -⟩ _
  have hwords : s.Before ("return" :: "\n" :: more) := by
    rw [lineWords_mk] at hs
    simpa [arrange] using hs
  have hend : s.advanced.atStatementEnd := by
    rw [State.atStatementEnd, hwords.advanced.kind_eq TokenKind.writes_newline]
    rfl
  exact ⟨_, s.advanced, .bareReturn (hwords.kind_spelled rfl) hend, SameNodes.bare .nil _ _ _ _,
    hwords.advanced⟩

theorem accepts_returnStmt {value : Node} (hwell : WellFormed (.expression .lowest) value)
    (hvalue : (Part.expression .lowest).Accepts value) :
    (Part.form .returnStmt).Accepts ⟨.returnStmt, [value], span, none⟩ := by
  rintro s _ hs ⟨more, rfl, -⟩ hdepth
  simp only [Part.Fits, nesting_mk, levelsAround, List.map_cons, List.map_nil, highest_cons,
    highest_nil] at hdepth
  have hwords : s.Before ("return" :: (value.lineWords ++ "\n" :: more)) := by
    rw [lineWords_mk] at hs
    simpa [arrange] using hs
  have hbegins : Part.statement.Starts s.advanced.kind := by
    rw [hwords.advanced.kind]
    exact .inl (hwell.starts.append _).ofWords
  obtain ⟨hseparator, -, hfile, hbrace⟩ := starts_statement hbegins
  have hend : s.advanced.atStatementEnd = false := by
    simp [State.atStatementEnd, hseparator, hfile, hbrace]
  obtain ⟨value', s', hvalue', hbare, hs'⟩ := hvalue _ _ hwords.advanced
    ((endsExpression_ofWords_newline more).endsBefore _ _) (by
      rw [State.depth_advanced]
      show _ ≤ nestingLimit
      omega)
  exact ⟨_, s', .returnStmt (hwords.kind_spelled rfl) hend hvalue',
    SameNodes.bare (.cons hbare .nil) _ _ _ _, hs'⟩

end

theorem statementPart_form {form : StatementForm} {n : Node} {s : State} {after : List String}
    (h : WellFormed (.form form) n) (hs : s.Before (n.lineWords ++ after)) :
    s.statementPart = .form form := by
  have hkind : s.kind.statementForm? = some form := by
    rw [hs.kind]
    exact (h.starts.append after).ofWords
  have hnext : ¬(s.kind = .keyword .fnKw ∧ (s.peek 1).kind = .leftParen) := by
    rintro ⟨hfn, hparen⟩
    rw [hfn] at hkind
    cases hkind
    cases h with
    | @functionDecl isAsync name parameters body span hname =>
        rw [lineWords_mk] at hs
        cases isAsync with
        | true =>
            have hasync : s.kind = .keyword .asyncKw := hs.kind_spelled rfl
            rw [hfn] at hasync
            cases hasync
        | false =>
            cases hname with
            | @identifier text _ htext =>
                have hname : (s.peek 1).kind = TokenKind.ofWord text := hs.kind_peek
                rw [hparen, htext.ofWord] at hname
                cases hname
  rw [State.statementPart, hkind]
  exact if_neg hnext

/-- An expression that begins with the word for a function goes on with an opening parenthesis, so it is
no declaration. -/
theorem statementPart_assignment {n : Node} {s : State} {after : List String}
    (h : WellFormed .assignment n) (hs : s.Before (n.lineWords ++ after)) :
    s.statementPart = .assignment := by
  have hoperand : s.kind.operandForm?.isSome := by
    rw [hs.kind]
    exact (h.starts.append after).ofWords
  cases hform : s.kind.statementForm? with
  | none => rw [State.statementPart, hform]
  | some form =>
      have hfn : s.kind = .keyword .fnKw := by
        rcases Parser.kind_of_statementForm? hform with hkind | ⟨hkind, -⟩
        · rw [hkind] at hoperand
          cases form with
          | functionDecl => exact hkind
          | _ => cases hoperand
        · rw [hkind] at hoperand
          cases hoperand
      have hfirst : TokenKind.ofWords n.lineWords = .keyword .fnKw := by
        obtain ⟨word, rest, hwords, -⟩ := h.starts
        rw [hs.kind, hwords] at hfn
        rw [hwords]
        exact hfn
      obtain ⟨rest, hrest⟩ := h.opensParameters_assignment hfirst
      rw [hrest] at hs
      have hparen : (s.peek 1).kind = .leftParen := hs.kind_peek
      rw [State.statementPart, hform]
      exact if_pos ⟨hfn, hparen⟩

theorem accepts_form {form : StatementForm} {n : Node} (h : WellFormed (.form form) n)
    (hform : (Part.form form).Accepts n) : Part.statement.Accepts n := by
  intro s after hs hend hdepth
  obtain ⟨n', s', hn', hbare, hs'⟩ := hform s.begun after hs.begun hend hdepth
  rw [← statementPart_form h hs] at hn'
  exact ⟨n', s', .statement hn', hbare, hs'⟩

theorem accepts_assignment {n : Node} (h : WellFormed .assignment n)
    (hassignment : Part.assignment.Accepts n) : Part.statement.Accepts n := by
  intro s after hs hend hdepth
  obtain ⟨n', s', hn', hbare, hs'⟩ := hassignment s.begun after hs.begun hend hdepth
  rw [← statementPart_assignment h hs] at hn'
  exact ⟨n', s', .statement hn', hbare, hs'⟩

/-! ### Whole trees -/

/-- A well-formed tree is read back from its words wherever they stand. -/
theorem Node.WellFormed.takes {part : Part} {n : Node} (h : WellFormed part n) : part.Takes n := by
  induction h with
  | literal hkind htext => exact accepts_literal hkind htext
  | identifier htext => exact (identifier htext).accepts_name
  | name hname => exact accepts_name_operand hname
  | call hcallee hvalues _ ihvalues =>
      exact accepts_call hcallee (items_expression hvalues ihvalues)
  | array helements ih => exact accepts_array (items_expression helements ih)
  | object hentries ih => exact accepts_object (items_entry hentries ih)
  | lambda _ _ ihparameters ihbody => exact accepts_lambda ihparameters ihbody
  | macroCall hsigil htext hcallee hvalues _ ihvalues =>
      exact accepts_macroCall hsigil htext hcallee (items_expression hvalues ihvalues)
  | awaitExpr hoperand ih => exact accepts_awaitExpr (hoperand.accepts ih)
  | bang hword htext hoperand ih => exact accepts_bang hword htext (hoperand.accepts ih)
  | operand hoperand ih => exact climbs_operand hoperand ih
  | operation hform hkind htext hpower _ hyields hright ihleft ihright =>
      exact climbs_operation hform hkind htext hpower ihleft hyields hright ihright
  | subscript hpower _ hyields hindex ihleft ihindex =>
      exact climbs_subscript hpower ihleft hyields hindex ihindex
  | entry htext hvalue ih => exact accepts_entry htext (hvalue.accepts ih) hvalue.beginsLine
  | parameters hnames => exact accepts_parameters hnames
  | block hbody ih => exact accepts_block hbody ih
  | statement hform ih => exact accepts_form hform ih
  | assignment hassignment ih => exact accepts_assignment hassignment ih
  | bare hvalue ih => exact accepts_bare (hvalue.accepts ih)
  | assign hkind htext htarget hvalid hvalue ihtarget ihvalue =>
      exact accepts_assign hkind htext (htarget.accepts ihtarget) hvalid (hvalue.accepts ihvalue)
  | functionDecl hname _ _ _ ihparameters ihbody =>
      exact accepts_functionDecl hname ihparameters ihbody
  | macroDecl hname _ _ _ ihparameters ihbody => exact accepts_macroDecl hname ihparameters ihbody
  | structDecl hname hfields hmethods _ ihfields ihmethods =>
      exact accepts_structDecl hname (fun n hn => ⟨ihfields n hn, (hfields n hn).starts⟩)
        (fun n hn => ⟨ihmethods n hn, (hmethods n hn).starts⟩)
  | field hname hvalue _ ih => exact accepts_field hname (hvalue.accepts ih)
  | importPath hpath => exact accepts_importPath hpath
  | importAs hpath hname => exact accepts_importAs hpath hname
  | importNames hnames hsome hpath => exact accepts_importNames hnames hsome hpath
  | address hscheme htext => exact accepts_path (address hscheme htext)
  | segments hscheme hnames hsome => exact accepts_path (segments hscheme hnames hsome)
  | forStmt hcondition hbody ihcondition ihbody =>
      exact accepts_forStmt (hcondition.accepts ihcondition) hbody ihbody
  | ifStmt hcondition hbody hclauses hlast hlength ihcondition ihbody ihclauses ihlast =>
      exact accepts_ifStmt (hcondition.accepts ihcondition) hbody ihbody
        (fun n hn => ⟨ihclauses n hn, (hclauses n hn).starts⟩)
        (fun n hn => ⟨ihlast n hn, (hlast n hn).starts⟩) hlength
  | elifClause hcondition hbody ihcondition ihbody =>
      exact accepts_elifClause (hcondition.accepts ihcondition) hbody ihbody
  | elseClause _ ih => exact accepts_elseClause ih
  | bareReturn => exact accepts_bareReturn
  | returnStmt hvalue ih => exact accepts_returnStmt hvalue (hvalue.accepts ih)

theorem State.before_ofSource {words : List String} (hwords : AllWords words) (options : Options) :
    (State.ofSource (String.ofList (layout words)) options).Before words := by
  constructor
  · rw [rest_ofSource, String.toList_ofList]
    exact Scan.shows_layout hwords Position.origin
  · rw [State.ofSource, tokenize, State.ofTokens_lexemes]

/-- The parser accepts the whole grammar: it reads a well-formed script that does not nest too deep back
from its text without a diagnostic, up to the places of its nodes. -/
theorem parse_printed {root : Node} (hroot : root.IsScript) (hnesting : root.nesting ≤ nestingLimit)
    (options : Options) :
    (parse root.printed options).diagnostics = [] ∧
      (parse root.printed options).root.bare = root.bare := by
  obtain ⟨kind, body, span, literal⟩ := root
  obtain ⟨rfl, rfl, hbody⟩ := hroot
  have hwords : lineWords ⟨.sourceFile, body, span, none⟩ = linesOf body [] := by
    rw [lineWords_mk]
    simp [arrange, linesOf, Function.comp_def]
  have hall : AllWords (linesOf body []) := by
    rw [← hwords, lineWords_mk]
    exact .lines (.map fun n hn => (hbody n hn).allWords)
  let s := State.ofSource (printed ⟨.sourceFile, body, span, none⟩) options
  have hs : s.Before (linesOf body []) := by
    show (State.ofSource (String.ofList (layout (lineWords _))) options).Before _
    rw [hwords]
    exact State.before_ofSource hall options
  have hdepth : s.depth = 0 := State.depth_ofSource _ options
  have hends : EndsLine [] := ⟨rfl, rfl⟩
  have hlines := endsLine_linesOf (fun n hn => (hbody n hn).starts) hends
  rw [← hs.pastSeparators hlines.1] at hs
  rw [nesting_mk] at hnesting
  obtain ⟨body', s', hbody', hsame, hs'⟩ := accepts_statements
    (fun n hn => ⟨(hbody n hn).takes, (hbody n hn).starts⟩) (.inl rfl) hs
    (nesting_within (by
      rw [hdepth, Nat.zero_add]
      exact hnesting))
  have hresult := State.readSource_eq (Parser.sourceFile_of_reads hbody' hdepth)
  have hparse : parse (printed ⟨.sourceFile, body, span, none⟩) options =
      ⟨Node.branch .sourceFile ⟨s'.start, s'.endOfFile⟩ body', s'.diagnostics⟩ := by
    simp only [parse, parseLogged, parseTokens]
    rw [show (State.ofTokens options Position.origin (tokenize _)).readSource = _ from hresult]
  rw [hparse]
  constructor
  · show Diagnostic.inSourceOrder s'.reports.reverse = []
    rw [hs'.reports]
    rfl
  · exact hsame.bare _ _ _ _

/-- The tree of a loop over a range that changes a sum. -/
def Node.loop : Node :=
  .branch .sourceFile default
    [.branch .forStmt default
      [.branch .inExpr default
        [.leaf .identifier default "i",
          .branch .rangeExpr default
            [.leaf .numberLit default "0", .leaf .identifier default "n"]],
        .branch .block default
          [⟨.compoundAssign,
            [.leaf .identifier default "total",
              ⟨.unaryBang, [.leaf .identifier default "ok"], default, some "!"⟩],
            default, some "+="⟩]]]

example : Node.loop.printed = "for i in 0 .. n \x7b total += ! ok\n\x7d\n" := by decide +kernel

theorem isScript_loop : Node.loop.IsScript := by
  have hname : ∀ text power, TokenKind.identifier.Writes text →
      WellFormed (.expression power) (.leaf .identifier default text) :=
    fun _ _ htext => .operand (.name (.identifier htext))
  have hzero : WellFormed (.expression .membership) (.leaf .numberLit default "0") :=
    .operand (.literal (show Parser.literalKind? .number = _ from rfl) ⟨_, _, rfl, by decide⟩)
  have hrange : WellFormed (.expression .membership) (.branch .rangeExpr default
      [.leaf .numberLit default "0", .leaf .identifier default "n"]) :=
    @WellFormed.operation _ _ (.operator .dotDot) .range _ _ _ _ nofun rfl rfl (by decide) hzero rfl
      (hname "n" _ ⟨_, _, rfl, by decide⟩)
  have hcondition : WellFormed (.expression .lowest) (.branch .inExpr default
      [.leaf .identifier default "i", .branch .rangeExpr default
        [.leaf .numberLit default "0", .leaf .identifier default "n"]]) :=
    @WellFormed.operation _ _ (.keyword .inKw) .membership _ _ _ _ nofun rfl rfl (by decide)
      (hname "i" _ ⟨_, _, rfl, by decide⟩) rfl hrange
  have hnegated : WellFormed (.expression .assignment)
      ⟨.unaryBang, [.leaf .identifier default "ok"], default, some "!"⟩ :=
    .operand (.bang (show (TokenKind.operator .bang).operandForm? = _ from rfl) rfl
      (hname "ok" _ ⟨_, _, rfl, by decide⟩))
  have hchange : WellFormed .assignment ⟨.compoundAssign,
      [.leaf .identifier default "total",
        ⟨.unaryBang, [.leaf .identifier default "ok"], default, some "!"⟩], default, some "+="⟩ :=
    .assign (show Parser.assignmentKind? (.operator .plusAssign) = _ from rfl) rfl
      (hname "total" _ ⟨_, _, rfl, by decide⟩) rfl hnegated
  refine ⟨rfl, rfl, fun child hchild => ?_⟩
  obtain rfl := List.mem_singleton.mp hchild
  refine .statement (.forStmt hcondition (.block fun n hn => ?_))
  obtain rfl := List.mem_singleton.mp hn
  exact .assignment hchange

theorem parse_printed_loop :
    Node.loop.IsScript ∧ Node.loop.nesting ≤ nestingLimit ∧
      (parse Node.loop.printed {}).diagnostics = [] ∧
      (parse Node.loop.printed {}).root.bare = Node.loop.bare :=
  ⟨isScript_loop, by decide, parse_printed isScript_loop (by decide) {}⟩

end ScriptSyntax
