import ScriptSyntax.Proofs.Parsing.Clean
import ScriptSyntax.Proofs.Parsing.Whole
import ScriptSyntax.Proofs.Token.Spelling
import ScriptSyntax.Proofs.Tree.Written

/-!
A parse without errors keeps every token.  The words of the tree are the texts of the tokens, except that
the two words of an asynchronous declaration may stand in either order: `written_of_no_errors`.
-/

namespace ScriptSyntax

/-- The same words in the same order, but for the two that begin an asynchronous function. -/
inductive SameUpToAsync : List String → List String → Prop where
  | nil : SameUpToAsync [] []
  | cons (word : String) {first second : List String} (hrest : SameUpToAsync first second) :
      SameUpToAsync (word :: first) (word :: second)
  | swap {first second : List String} (hrest : SameUpToAsync first second) :
      SameUpToAsync ("async" :: "fn" :: first) ("fn" :: "async" :: second)

namespace SameUpToAsync

theorem refl (words : List String) : SameUpToAsync words words := by
  induction words with
  | nil => exact .nil
  | cons word words ih => exact .cons word ih

theorem append {first second first' second' : List String} (h : SameUpToAsync first second)
    (h' : SameUpToAsync first' second') : SameUpToAsync (first ++ first') (second ++ second') := by
  induction h with
  | nil => exact h'
  | cons word _ ih => exact .cons word ih
  | swap _ ih => exact .swap ih

end SameUpToAsync

/-- The texts of the tokens, without those that end statements. -/
def Slot.words (slots : List Slot) : List String :=
  (slots.filter (!·.kind.isSeparator)).map (·.token.text)

theorem Slot.words_append (first second : List Slot) :
    Slot.words (first ++ second) = Slot.words first ++ Slot.words second := by
  simp [Slot.words]

namespace State

/-- The texts of the tokens consumed between two states. -/
def wordsTo (s s' : State) : List String :=
  Slot.words (s.rest.take (s.rest.length - s'.rest.length))

/-- The tokens left are written as their kinds ask for. -/
def Spelled (s : State) : Prop := ∀ slot ∈ s.rest, slot.token.Spelled

variable {s t s' : State}

theorem Spelled.advances (h : s.Spelled) (hadvances : s.Advances s') : s'.Spelled := by
  intro slot hslot
  exact h slot (hadvances.rest.subset hslot)

theorem wordsTo_of_passed {passed : List Slot} (hrest : s.rest = passed ++ s'.rest) :
    s.wordsTo s' = Slot.words passed := by
  have hlength : s.rest.length - s'.rest.length = passed.length := by simp [hrest]
  rw [wordsTo, hlength, hrest, List.take_left]

@[simp] theorem wordsTo_self (s : State) : s.wordsTo s = [] := by
  simp [wordsTo, Slot.words]

theorem wordsTo_trans (h : s.Advances t) (h' : t.Advances s') :
    s.wordsTo s' = s.wordsTo t ++ t.wordsTo s' := by
  obtain ⟨passed, hrest, -⟩ := h.passes
  obtain ⟨passed', hrest', -⟩ := h'.passes
  have hall : s.rest = (passed ++ passed') ++ s'.rest := by
    rw [hrest, hrest', List.append_assoc]
  rw [wordsTo_of_passed hall, wordsTo_of_passed hrest, wordsTo_of_passed hrest',
    Slot.words_append]

theorem wordsTo_advanced (hend : s.kind ≠ .endOfFile) (hseparator : s.kind.isSeparator = false) :
    s.wordsTo s.advanced = [s.current.text] := by
  obtain ⟨slot, slots, hrest⟩ := exists_rest_eq_cons hend
  have hpassed : s.rest = [slot] ++ s.advanced.rest := by rw [rest_advanced hrest, hrest]; rfl
  rw [wordsTo_of_passed hpassed]
  rw [kind_of_cons hrest] at hseparator
  simp [Slot.words, hseparator, current, State.slot, hrest]

theorem wordsTo_pastWhile {p : TokenKind → Bool} (hp : ∀ kind, p kind → kind.isSeparator)
    (slots : List Slot) : ∀ s : State, s.rest = slots → s.wordsTo (pastWhile p slots s) = [] := by
  induction slots with
  | nil =>
      intro s _
      exact s.wordsTo_self
  | cons slot slots ih =>
      intro s hrest
      unfold pastWhile
      split
      · rename_i hslot
        have hpassed : s.rest = [slot] ++ s.advanced.rest := by rw [rest_advanced hrest, hrest]; rfl
        rw [wordsTo_trans s.advances_advanced (advances_pastWhile p slots s.advanced),
          ih s.advanced (rest_advanced hrest), wordsTo_of_passed hpassed]
        simp [Slot.words, hp _ hslot]
      · exact s.wordsTo_self

theorem wordsTo_pastNewlines (s : State) : s.wordsTo s.pastNewlines = [] := by
  refine wordsTo_pastWhile ?_ s.rest s rfl
  intro kind hkind
  simp at hkind
  rw [hkind]
  rfl

theorem wordsTo_pastSeparators (s : State) : s.wordsTo s.pastSeparators = [] :=
  wordsTo_pastWhile (fun _ hkind => hkind) s.rest s rfl

theorem Spelled.text (h : s.Spelled) (text : String) (hkind : s.kind.spelling? = some text) :
    s.current.text = text := by
  have hend : s.kind ≠ .endOfFile := by
    intro hend
    simp [hend, TokenKind.spelling?] at hkind
  obtain ⟨slot, slots, hrest⟩ := exists_rest_eq_cons hend
  have hcurrent : s.current = slot.token := by rw [current, slot_of_cons hrest]
  rw [hcurrent]
  refine h slot (by simp [hrest]) text ?_
  rw [kind_of_cons hrest] at hkind
  exact hkind

/-- The words are those of the tokens consumed between two states. -/
structure Says (s : State) (words : List String) (s' : State) : Prop where
  advances : s.Advances s'
  spoken : s.Spelled → SameUpToAsync words (s.wordsTo s')

namespace Says

variable {s₁ s₂ : State} {words words' : List String}

theorem nil (s : State) : s.Says [] s := by
  refine ⟨.refl s, fun _ => ?_⟩
  rw [wordsTo_self]
  exact .nil

theorem append (h : s.Says words s₁) (h' : s₁.Says words' s₂) : s.Says (words ++ words') s₂ := by
  refine ⟨h.advances.trans h'.advances, fun hs => ?_⟩
  rw [wordsTo_trans h.advances h'.advances]
  exact (h.spoken hs).append (h'.spoken (hs.advances h.advances))

theorem of_eq (h : s.Says words s') (heq : words' = words) : s.Says words' s' :=
  heq ▸ h

theorem token (hend : s.kind ≠ .endOfFile) (hseparator : s.kind.isSeparator = false) :
    s.Says [s.current.text] s.advanced := by
  refine ⟨s.advances_advanced, fun _ => ?_⟩
  rw [wordsTo_advanced hend hseparator]
  exact .refl _

theorem word (text : String) {kind : TokenKind} (hkind : s.kind = kind)
    (htext : kind.spelling? = some text) (hseparator : kind.isSeparator = false) :
    s.Says [text] s.advanced := by
  have hend : s.kind ≠ .endOfFile := by
    rw [hkind]
    rintro rfl
    cases htext
  refine ⟨s.advances_advanced, fun hs => ?_⟩
  rw [wordsTo_advanced hend (hkind ▸ hseparator), hs.text text (hkind ▸ htext)]
  exact .refl _

theorem name (hkind : s.kind = .identifier) : s.Says [s.current.text] s.advanced :=
  token (by simp [hkind]) (by simp [hkind, TokenKind.isSeparator])

theorem newlines (h : s.pastNewlines.Says words s') : s.Says words s' := by
  refine ⟨s.advances_pastNewlines.trans h.advances, fun hs => ?_⟩
  rw [wordsTo_trans s.advances_pastNewlines h.advances, wordsTo_pastNewlines]
  exact h.spoken (hs.advances s.advances_pastNewlines)

theorem separators (h : s.pastSeparators.Says words s') : s.Says words s' := by
  refine ⟨s.advances_pastSeparators.trans h.advances, fun hs => ?_⟩
  rw [wordsTo_trans s.advances_pastSeparators h.advances, wordsTo_pastSeparators]
  exact h.spoken (hs.advances s.advances_pastSeparators)

theorem closed {closer : TokenKind} {expressionList : Bool}
    (h : (s.opened closer expressionList).Says words s') : s.Says words s'.closed :=
  ⟨h.advances.closed, h.spoken⟩

theorem leaving (h : s.entered.Says words s') : s.Says words (s'.leaving s.depth) :=
  ⟨(s.advances_entered.trans h.advances).leaving, h.spoken⟩

end Says

end State

/-- The words of a tree, without those that end lines. -/
def Node.words (n : Node) : List String := n.written []

theorem Node.words_mk (kind : NodeKind) (children : List Node) (span : Span)
    (literal : Option String) :
    Node.words ⟨kind, children, span, literal⟩ =
      Node.arrange [] ⟨kind, children, span, literal⟩ (children.map Node.words) :=
  Node.written_eq [] _

namespace Part

/-- The words of the nodes that a part gives. -/
def spell (part : Part) (nodes : List Node) : List String :=
  match part with
  | list opener closer _ _ =>
      opener.spelling?.getD "" :: [","].intercalate (nodes.map Node.words) ++
        [closer.spelling?.getD ""]
  | more _ => ((nodes.map Node.words).map ("," :: ·)).flatten
  | segments => ["."].intercalate (nodes.map Node.words)
  | moreSegments => ((nodes.map Node.words).map ("." :: ·)).flatten
  | _ => (nodes.map Node.words).flatten

/-- The nodes of a part say what stands between two states, with the node that the part continues if there
is one. -/
def Spells (part : Part) (nodes : List Node) (s s' : State) : Prop :=
  match part with
  | climb _ left | continuation _ left _ =>
      ∀ t : State, t.Says left.words s → t.Says (part.spell nodes) s'
  | list opener closer _ _ => opener.closer? = some closer → s.Says (part.spell nodes) s'
  | _ => s.Says (part.spell nodes) s'

end Part

theorem spelling_of_closer? {opener closer : TokenKind} (h : opener.closer? = some closer) :
    (∃ text, opener.spelling? = some text) ∧ (∃ text, closer.spelling? = some text) ∧
      opener.isSeparator = false ∧ closer.isSeparator = false := by
  unfold TokenKind.closer? at h
  split at h <;> cases h
  all_goals simp [TokenKind.spelling?, TokenKind.isSeparator]

theorem spelling_of_operatorForm? {kind : TokenKind} {next : BindingPower} {form : OperatorForm}
    (h : kind.operatorForm? = some (next, form)) :
    form = .binary ∨ form = .membership ∧ kind.spelling? = some "in" ∨
      form = .range ∧ kind.spelling? = some ".." ∨ form = .member ∧ kind.spelling? = some "." ∨
        form = .subscript := by
  unfold TokenKind.operatorForm? at h
  split at h <;> cases h
  all_goals simp [TokenKind.spelling?, Keyword.spelling, Operator.symbol]

section
variable {s s₁ s' : State}

theorem words_leaf (s : State) (kind : NodeKind)
    (hkind : kind ∈ [.identifier, .numberLit, .stringLit, .boolLit]) :
    (s.leaf kind).words = [s.current.text] := by
  simp only [List.mem_cons, List.not_mem_nil, or_false] at hkind
  rcases hkind with rfl | rfl | rfl | rfl <;> rfl

theorem words_identifier (s : State) : (s.leaf .identifier).words = [s.current.text] :=
  words_leaf s .identifier (by simp)

theorem words_stringLit (s : State) : (s.leaf .stringLit).words = [s.current.text] :=
  words_leaf s .stringLit (by simp)

theorem TokenKind.spoken_of_operandForm? {kind : TokenKind} {form : OperandForm}
    (h : kind.operandForm? = some form) : kind ≠ .endOfFile ∧ kind.isSeparator = false := by
  unfold TokenKind.operandForm? at h
  split at h <;> simp_all [TokenKind.isSeparator]

theorem TokenKind.spoken_of_operatorForm? {kind : TokenKind} {next : BindingPower}
    {form : OperatorForm} (h : kind.operatorForm? = some (next, form)) :
    kind ≠ .endOfFile ∧ kind.isSeparator = false := by
  unfold TokenKind.operatorForm? at h
  split at h <;> simp_all [TokenKind.isSeparator]

theorem exists_operator {form : OperatorForm} {next : BindingPower} (hform : form ≠ .subscript)
    (hkind : s.kind.operatorForm? = some (next, form)) :
    ∃ word, s.Says [word] s.advanced ∧ ∀ left right span,
      Node.words ⟨form.nodeKind, [left, right], span, form.literal? s.current.text⟩ =
        left.words ++ word :: right.words := by
  obtain ⟨hend, hseparator⟩ := TokenKind.spoken_of_operatorForm? hkind
  have hword : ∀ word, s.kind.spelling? = some word → s.Says [word] s.advanced := fun word htext =>
    .word word rfl htext hseparator
  rcases spelling_of_operatorForm? hkind with rfl | ⟨rfl, htext⟩ | ⟨rfl, htext⟩ | ⟨rfl, htext⟩ | rfl
  · refine ⟨_, .token hend hseparator, fun left right span => ?_⟩
    simp [OperatorForm.nodeKind, Node.words_mk .binaryExpr, Node.arrange, OperatorForm.literal?,
      List.intercalate]
  · refine ⟨_, hword _ htext, fun left right span => ?_⟩
    simp [OperatorForm.nodeKind, Node.words_mk .inExpr, Node.arrange, List.intercalate]
  · refine ⟨_, hword _ htext, fun left right span => ?_⟩
    simp [OperatorForm.nodeKind, Node.words_mk .rangeExpr, Node.arrange, List.intercalate]
  · refine ⟨_, hword _ htext, fun left right span => ?_⟩
    simp [OperatorForm.nodeKind, Node.words_mk .memberAccess, Node.arrange, List.intercalate]
  · exact absurd rfl hform

namespace State.Says

variable {words : List String}

theorem brackets {opener closer : TokenKind} {expressionList : Bool}
    (hcloser? : opener.closer? = some closer) (hopener : s.kind = opener)
    (hinside : (s.advanced.opened closer expressionList).pastNewlines.Says words s₁)
    (hcloser : s₁.kind = closer) :
    s.Says (opener.spelling?.getD "" :: (words ++ [closer.spelling?.getD ""]))
      s₁.advanced.closed := by
  obtain ⟨⟨first, hfirst⟩, ⟨last, hlast⟩, hopenerSeparator, hcloserSeparator⟩ :=
    spelling_of_closer? hcloser?
  rw [hfirst, hlast]
  have hclosed := (hinside.newlines.append (word last hcloser hlast hcloserSeparator)).closed
  exact (word first hopener hfirst hopenerSeparator).append hclosed

theorem braces (hopener : s.kind = .leftBrace)
    (hinside : (s.advanced.opened .rightBrace false).Says words s₁) (hcloser : s₁.kind = .rightBrace) :
    s.Says ("\x7b" :: (words ++ ["\x7d"])) s₁.closed.advanced := by
  have hclosing : s₁.closed.Says ["\x7d"] s₁.closed.advanced := word "\x7d" hcloser rfl rfl
  exact (word "\x7b" hopener rfl rfl).append (hinside.closed.append hclosing)

end State.Says

theorem exists_assignment {kind : NodeKind} (hkind : Parser.assignmentKind? s.kind = some kind) :
    ∃ word, s.Says [word] s.advanced ∧ ∀ target value span,
      Node.words ⟨kind, [target, value], span,
        if kind = .compoundAssign then some s.current.text else none⟩ =
          target.words ++ word :: value.words := by
  rcases Parser.assignmentKind?_cases hkind with ⟨hword, rfl⟩ | ⟨hword, rfl⟩ | ⟨⟨o, hword⟩, rfl⟩
  · refine ⟨"=", .word "=" hword rfl rfl, fun target value span => ?_⟩
    simp [Node.words_mk .variableAssign, Node.arrange, List.intercalate]
  · refine ⟨":=", .word ":=" hword rfl rfl, fun target value span => ?_⟩
    simp [Node.words_mk .constantDecl, Node.arrange, List.intercalate]
  · refine ⟨_, .token (by simp [hword]) (by simp [hword, TokenKind.isSeparator]),
      fun target value span => ?_⟩
    simp [Node.words_mk .compoundAssign, Node.arrange, List.intercalate]

theorem words_importNames {first path : Node} {rest : List Node} {span : Span}
    (hfirst : first.kind = .identifier) :
    (Node.branch .importStmt span (first :: (rest ++ [path]))).words =
      "use" :: ("\x7b" :: ([","].intercalate ((first :: rest).map Node.words) ++ ["\x7d"]) ++
        "from" :: path.words) := by
  rw [Node.branch, Node.words_mk]
  simp only [Node.arrange, List.head?_cons, Option.any_some, hfirst, List.map_cons, List.map_append,
    List.map_nil]
  rw [← List.cons_append, List.dropLast_concat, List.getLast?_concat]
  simp

theorem FunctionWords.spells {isAsync : Bool} (h : FunctionWords s isAsync s') :
    s.Says (if isAsync then ["async", "fn"] else ["fn"]) s' := by
  cases h with
  | plain hfn => exact .word "fn" hfn rfl rfl
  | asyncFirst hasync hfn =>
      exact (State.Says.word "async" hasync rfl rfl).append (.word "fn" hfn rfl rfl)
  | asyncLast hfn hasync =>
      have hswapped := (State.Says.word "fn" hfn rfl rfl).append (.word "async" hasync rfl rfl)
      refine ⟨hswapped.advances, fun hs => ?_⟩
      rw [State.wordsTo_trans s.advances_advanced s.advanced.advances_advanced,
        State.wordsTo_advanced (by simp [hfn]) (by simp [hfn, TokenKind.isSeparator]),
        State.wordsTo_advanced (by simp [hasync]) (by simp [hasync, TokenKind.isSeparator]),
        hs.text "fn" (hfn ▸ rfl), (hs.advances s.advances_advanced).text "async" (hasync ▸ rfl)]
      exact .swap .nil

theorem Part.spells_item {item : Item} {n : Node} (h : item.part.Spells [n] s s') :
    s.Says n.words s' := by
  have hwords : item.part.spell [n] = n.words := by cases item <;> simp [Item.part, Part.spell]
  rw [← hwords]
  cases item <;> exact h

theorem Part.spells_statementPart {n : Node} (h : s.statementPart.Spells [n] s₁ s') :
    s₁.Says n.words s' := by
  unfold State.statementPart at h
  split at h
  · exact State.Says.of_eq h (by simp [Part.spell])
  · split at h <;> exact State.Says.of_eq h (by simp [Part.spell])

/-- The words of the nodes that a part gives are those of the tokens it consumes. -/
theorem Reads.spells {part : Part} {nodes : List Node} (h : Reads true part nodes s s') :
    part.Spells nodes s s' := by
  induction h with
  | gap _ _ _ herror | lexicalError _ herror | openBlock _ _ _ _ herror | joined _ _ _ _ herror
    | broken _ _ _ herror | misassign _ _ _ _ herror | lateField _ herror
    | unknownPath _ _ _ _ herror | lateClause _ _ _ herror => cases herror
  | @expression power form left node s s₁ s₂ _ _ _ _ ihleft ihclimb =>
      have hleft : s.entered.Says left.words s₁ := ihleft.of_eq (by simp [Part.spell])
      exact (ihclimb _ hleft).leaving
  | climbStop => exact fun _ hleft => hleft.of_eq (by simp [Part.spell])
  | @climbFold power next form left folded node s s₁ s₂ _ _ _ _ ihfolded ihclimb =>
      intro t hleft
      have hentered : t.Says left.words s.entered :=
        ⟨hleft.advances.trans s.advances_entered, hleft.spoken⟩
      exact ihclimb t ((ihfolded t hentered).of_eq (by simp [Part.spell]))
  | @literal kind s hkind =>
      obtain ⟨hleaf, hend, hseparator⟩ : kind ∈ [.identifier, .numberLit, .stringLit, .boolLit] ∧
          s.kind ≠ .endOfFile ∧ s.kind.isSeparator = false := by
        unfold Parser.literalKind? at hkind
        split at hkind <;> simp_all [TokenKind.isSeparator]
      exact (State.Says.token hend hseparator).of_eq (by simp [Part.spell, words_leaf s kind hleaf])
  | name hkind | identifier hkind =>
      exact (State.Says.name hkind).of_eq (by simp [Part.spell, words_identifier])
  | call hkind _ ihvalues =>
      refine ((State.Says.name hkind).append (ihvalues rfl)).of_eq ?_
      simp [Part.spell, Node.branch, Node.words_mk .functionCall, Node.arrange, words_identifier,
        TokenKind.spelling?]
  | array _ ih | object _ ih | parameters _ ih =>
      refine (ih rfl).of_eq ?_
      simp [Part.spell, Node.branch, Node.words_mk, Node.arrange, TokenKind.spelling?]
  | lambda hkind _ _ ihparameters ihbody =>
      refine ((State.Says.word "fn" hkind rfl rfl).append (ihparameters.append ihbody)).of_eq ?_
      simp [Part.spell, Node.branch, Node.words_mk .lambda, Node.arrange]
  | macroCall hsigil hname _ ihvalues =>
      obtain ⟨hend, hseparator⟩ := TokenKind.spoken_of_operandForm? hsigil
      refine ((State.Says.token hend hseparator).append
        ((State.Says.name hname).append (ihvalues rfl))).of_eq ?_
      simp [Part.spell, Node.words_mk .macroCall, Node.arrange, words_identifier, TokenKind.spelling?]
  | awaitExpr hkind _ ihoperand =>
      refine ((State.Says.word "await" hkind rfl rfl).append ihoperand).of_eq ?_
      simp [Part.spell, Node.branch, Node.words_mk .awaitExpr, Node.arrange]
  | bang hkind _ ihoperand =>
      obtain ⟨hend, hseparator⟩ := TokenKind.spoken_of_operandForm? hkind
      refine ((State.Says.token hend hseparator).append ihoperand).of_eq ?_
      simp [Part.spell, Node.words_mk .unaryBang, Node.arrange]
  | operation hform hkind _ ihright =>
      intro t hleft
      obtain ⟨word, hword, hwords⟩ := exists_operator hform hkind
      exact (hleft.append (hword.append (.newlines ihright))).of_eq (by simp [Part.spell, hwords])
  | @subscript next left index s s₁ hkind _ hclosing ihindex =>
      intro t hleft
      have hindex := ihindex.append (State.Says.newlines (.nil s₁.pastNewlines))
      refine (hleft.append (.brackets rfl hkind hindex hclosing)).of_eq ?_
      simp [Part.spell, Node.branch, Node.words_mk .subscript, Node.arrange, List.intercalate,
        TokenKind.spelling?]
  | @entry value s s' hkind hcolon _ ihvalue =>
      have hkey : s.Says [s.current.text] s.advanced :=
        .token (by simp [hkind]) (by simp [hkind, TokenKind.isSeparator])
      refine (hkey.append ((State.Says.word ":" hcolon rfl rfl).append (.newlines ihvalue))).of_eq ?_
      simp [Part.spell, Node.branch, Node.words_mk .keyValuePair, Node.arrange, List.intercalate,
        words_stringLit]
  | emptyList hopener hcloser =>
      intro hcloser?
      exact (State.Says.brackets hcloser? hopener (.nil _) hcloser).of_eq
        (by simp [Part.spell, List.intercalate])
  | @items opener closer expressionList item first rest s s₁ s₂ hopener _ _ hcloser ihfirst ihrest =>
      intro hcloser?
      have hitems := (Part.spells_item ihfirst).append (.newlines ihrest)
      refine (State.Says.brackets hcloser? hopener hitems hcloser).of_eq ?_
      simp [Part.spell, intercalate_cons]
  | noMore | noMoreSegments | noClauses => exact .nil _
  | more hkind _ _ ihnext ihrest =>
      have hitems := (Part.spells_item ihnext).append (.newlines ihrest)
      refine ((State.Says.word "," hkind rfl rfl).append hitems.newlines).of_eq ?_
      simp [Part.spell]
  | @block body s s₁ _ hopener _ hclosing ihbody =>
      have hbraces : s.entered.Says _ s₁.closed.advanced := .braces hopener ihbody hclosing
      refine hbraces.leaving.of_eq ?_
      simp [Part.spell, Node.branch, Node.words_mk .block, Node.arrange, Function.comp_def]
  | noStatements | noMembers => exact .separators (.nil _)
  | whole _ _ _ _ ihnode ihrest | members _ _ _ ihnode ihrest =>
      exact (State.Says.separators (ihnode.append ihrest)).of_eq (by simp [Part.spell])
  | @statement node s s' _ ihform =>
      have hform := Part.spells_statementPart ihform
      have hnode : s.Says node.words s' := ⟨s.advances_begun.trans hform.advances, hform.spoken⟩
      exact hnode.of_eq (by simp [Part.spell])
  | bare _ _ ihvalue =>
      exact ihvalue.of_eq (by simp [Part.spell, Node.branch, Node.words_mk .expressionStmt, Node.arrange])
  | assign _ hkind _ _ ihtarget ihvalue =>
      obtain ⟨word, hword, hwords⟩ := exists_assignment hkind
      exact (ihtarget.append (hword.append ihvalue)).of_eq (by simp [Part.spell, hwords])
  | @functionDecl isAsync parameters body s s₁ s₂ s₃ hwords hname _ _ ihparameters ihbody =>
      have hnamed := (State.Says.name hname).append (ihparameters.append ihbody)
      refine (hwords.spells.append hnamed).of_eq ?_
      cases isAsync <;> simp [Part.spell, Node.words_mk .functionDecl, Node.arrange, words_identifier]
  | macroDecl hkind hname _ _ ihparameters ihbody =>
      have hnamed := (State.Says.name hname).append (ihparameters.append ihbody)
      refine ((State.Says.word "macro" hkind rfl rfl).append hnamed).of_eq ?_
      simp [Part.spell, Node.branch, Node.words_mk .macroDecl, Node.arrange, words_identifier]
  | structDecl hkind hname hopener _ hclosing ihmembers =>
      have hnamed := (State.Says.name hname).append (.braces hopener ihmembers hclosing)
      refine ((State.Says.word "struct" hkind rfl rfl).append hnamed).of_eq ?_
      simp [Part.spell, Node.branch, Node.words_mk .structDecl, Node.arrange, words_identifier,
        Function.comp_def]
  | method _ _ ih | earlyField _ ih => exact ih
  | field hkind hassign _ ihvalue =>
      refine ((State.Says.name hkind).append
        ((State.Says.word "=" hassign rfl rfl).append ihvalue)).of_eq ?_
      simp [Part.spell, Node.branch, Node.words_mk .structField, Node.arrange, List.intercalate,
        words_identifier]
  | importPath hkind hpath _ ihpath =>
      refine ((State.Says.word "use" hkind rfl rfl).append ihpath).of_eq ?_
      simp [Part.spell, Node.branch, Node.words_mk .importStmt, Node.arrange, List.intercalate,
        hpath.kind_of_path]
  | importAs hkind hpath has hname ihpath =>
      have halias := (State.Says.word "as" has rfl rfl).append (.name hname)
      refine ((State.Says.word "use" hkind rfl rfl).append (ihpath.append halias)).of_eq ?_
      simp [Part.spell, Node.branch, Node.words_mk .importStmt, Node.arrange, List.intercalate,
        hpath.kind_of_path, words_identifier]
  | importNames hkind hnames hsome hfrom _ ihnames ihpath =>
      obtain ⟨first, rest, rfl, hfirst⟩ := hnames.kind_of_names hsome
      have hfromPath := (State.Says.word "from" hfrom rfl rfl).append ihpath
      refine ((State.Says.word "use" hkind rfl rfl).append ((ihnames rfl).append hfromPath)).of_eq ?_
      simp [Part.spell, words_importNames hfirst, TokenKind.spelling?]
  | knownPath hkind hcolon _ _ ihparts =>
      refine ((State.Says.name hkind).append
        ((State.Says.word ":" hcolon rfl rfl).append ihparts)).of_eq ?_
      simp [Part.spell, Node.words_mk .importPath, Node.arrange]
  | address hkind =>
      refine (State.Says.token (by simp [hkind]) (by simp [hkind, TokenKind.isSeparator])).of_eq ?_
      simp [Part.spell, words_stringLit, List.intercalate]
  | segments hkind _ ihrest =>
      refine ((State.Says.name hkind).append ihrest).of_eq ?_
      simp [Part.spell, intercalate_cons, words_identifier]
  | moreSegments hkind hname _ ihrest =>
      refine ((State.Says.word "." hkind rfl rfl).append ((State.Says.name hname).append ihrest)).of_eq ?_
      simp [Part.spell, words_identifier]
  | forStmt hkind _ _ ihcondition ihbody =>
      refine ((State.Says.word "for" hkind rfl rfl).append (ihcondition.append ihbody)).of_eq ?_
      simp [Part.spell, Node.branch, Node.words_mk .forStmt, Node.arrange]
  | ifStmt hkind _ _ _ ihcondition ihbody ihclauses =>
      refine ((State.Says.word "if" hkind rfl rfl).append
        (ihcondition.append (ihbody.append ihclauses))).of_eq ?_
      simp [Part.spell, Node.branch, Node.words_mk .ifStmt, Node.arrange]
  | clauses _ _ _ ihnode ihrest =>
      exact (State.Says.newlines (ihnode.append ihrest)).of_eq (by simp [Part.spell])
  | elseClause hkind _ ihbody =>
      refine ((State.Says.word "else" hkind rfl rfl).append ihbody).of_eq ?_
      simp [Part.spell, Node.branch, Node.words_mk .elseClause, Node.arrange]
  | elifClause hkind _ _ ihcondition ihbody =>
      refine ((State.Says.word "elif" hkind rfl rfl).append (ihcondition.append ihbody)).of_eq ?_
      simp [Part.spell, Node.branch, Node.words_mk .elifClause, Node.arrange]
  | bareReturn hkind =>
      exact (State.Says.word "return" hkind rfl rfl).of_eq
        (by simp [Part.spell, Node.branch, Node.words_mk .returnStmt, Node.arrange])
  | returnStmt hkind _ _ ihvalue =>
      refine ((State.Says.word "return" hkind rfl rfl).append ihvalue).of_eq ?_
      simp [Part.spell, Node.branch, Node.words_mk .returnStmt, Node.arrange]

end

/-! ### Whole sources -/

/-- The texts of the tokens of a source, without blanks, comments, the ends of statements and the end of
the file. -/
def significantTexts (source : String) : List String :=
  let tokens := (tokenize source).filter fun t =>
    !(t.kind.isTrivia || t.kind.isSeparator || t.kind = .endOfFile)
  tokens.map (·.text)

theorem significantTexts_eq (source : String) (options : Options) :
    significantTexts source = Slot.words (State.ofSource source options).rest := by
  have hwords : ∀ slots : List Slot, Slot.words slots =
      ((slots.map (·.token)).filter (!·.kind.isSeparator)).map (·.text) := by
    intro slots
    simp [Slot.words, List.filter_map, Function.comp_def, Slot.kind]
  rw [hwords, rest_ofSource, Slot.map_token_significant, List.filter_filter, significantTexts,
    tokenize, Scan.tokens_eq]
  have hkinds := (Scan.run_lexemes Position.origin source.toList).kind_ne
  simp only [List.filter_append, List.map_append]
  have hend : [Token.endOfFile (Position.origin.advancedBy source.toList)].filter (fun t =>
      !(t.kind.isTrivia || t.kind.isSeparator || t.kind = .endOfFile)) = [] := rfl
  rw [hend, List.map_nil, List.append_nil]
  refine congrArg _ (List.filter_congr fun token htoken => ?_)
  simp [hkinds token htoken, Bool.and_comm]

theorem spelled_ofSource (source : String) (options : Options) :
    (State.ofSource source options).Spelled := by
  intro slot hslot
  rw [rest_ofSource] at hslot
  exact Scan.spelled_lexemes Position.origin source.toList _ (Slot.token_mem hslot)

/-- A source without errors has a tree whose words are its tokens: none is lost, doubled, moved or made
up. -/
theorem written_of_no_errors (source : String) (options : Options)
    (hquiet : (parse source options).errors = []) :
    SameUpToAsync ((parse source options).root.written []) (significantTexts source) := by
  obtain ⟨body, s', hroot, hdiagnostics, hreads, hrest⟩ := parse_reads source options
  have herrors : s'.errorCount = 0 := by
    have hperm := (Diagnostic.inSourceOrder_perm s'.reports.reverse).filter (·.isError)
    rw [ParseResult.errors, hdiagnostics, State.diagnostics] at hquiet
    rw [hquiet] at hperm
    have hnone : s'.reports.reverse.filter (·.isError) = [] := hperm.symm.eq_nil
    rw [List.filter_reverse, List.reverse_eq_nil_iff] at hnone
    simp [State.errorCount, hnone]
  have hclean := hreads.of_quiet (Nat.le_trans (Nat.le_of_eq herrors) (Nat.zero_le _))
  have hsays : (State.ofSource source options).Says _ s' := hclean.spells
  have hwords := hsays.spoken (spelled_ofSource source options)
  have hall : (State.ofSource source options).wordsTo s' = significantTexts source := by
    rw [significantTexts_eq source options]
    exact State.wordsTo_of_passed (by simp [hrest])
  rw [hroot, ← hall]
  have hnode : (Node.branch .sourceFile
      ⟨Position.origin, Position.origin.advancedBy source.toList⟩ body).words =
        (body.map Node.words).flatten := by
    rw [Node.branch, Node.words_mk]
    simp [Node.arrange, Function.comp_def]
  show SameUpToAsync (Node.words _) _
  rw [hnode]
  exact hwords

theorem written_of_asynchronous :
    (parse "fn async f() \x7b\x7d" {}).errors = [] ∧
      SameUpToAsync ((parse "fn async f() \x7b\x7d" {}).root.written [])
        (significantTexts "fn async f() \x7b\x7d") := by
  have hquiet : (parse "fn async f() \x7b\x7d" {}).errors = [] := by decide +kernel
  exact ⟨hquiet, written_of_no_errors _ _ hquiet⟩

end ScriptSyntax
