import ScriptSyntax.Proofs.Tree.Every
import ScriptSyntax.Proofs.Tree.WellFormed

/-!
The words of well-formed trees: what they begin with, and that each is a token of its own.
-/

namespace ScriptSyntax

namespace Node

/-- The words of a node, with the ends of lines. -/
def lineWords (n : Node) : List String := n.written ["\n"]

theorem lineWords_mk (kind : NodeKind) (children : List Node) (span : Span) (literal : Option String) :
    lineWords ⟨kind, children, span, literal⟩ =
      arrange ["\n"] ⟨kind, children, span, literal⟩ (children.map lineWords) :=
  written_eq _ _

theorem lineWords_operation {token : TokenKind} {next : BindingPower} {form : OperatorForm}
    {text : String} (hkind : token.operatorForm? = some (next, form)) (hform : form ≠ .subscript)
    (htext : token.spelling? = some text) (left right : Node) (span : Span) :
    lineWords ⟨form.nodeKind, [left, right], span, form.literal? text⟩ =
      left.lineWords ++ text :: right.lineWords := by
  unfold TokenKind.operatorForm? at hkind
  split at hkind <;> cases hkind
  all_goals
    cases htext
    simp_all [lineWords_mk, arrange, OperatorForm.nodeKind, OperatorForm.literal?, List.intercalate,
      Keyword.spelling, Operator.symbol]

theorem lineWords_subscript (left index : Node) (span : Span) :
    lineWords ⟨.subscript, [left, index], span, none⟩ =
      left.lineWords ++ "[" :: (index.lineWords ++ ["]"]) := by
  rw [lineWords_mk]
  simp [arrange]

theorem lineWords_assign {token : TokenKind} {text : String} {kind : NodeKind}
    (hkind : Parser.assignmentKind? token = some kind) (htext : token.spelling? = some text)
    (target value : Node) (span : Span) :
    lineWords ⟨kind, [target, value], span, if kind = .compoundAssign then some text else none⟩ =
      target.lineWords ++ text :: value.lineWords := by
  rw [lineWords_mk]
  unfold Parser.assignmentKind? at hkind
  split at hkind <;> cases hkind
  all_goals
    cases htext
    simp [arrange, Operator.symbol]

theorem lineWords_importStmt {path : Node} {parts : List Node} {span : Span}
    (hpath : path.kind = .importPath) :
    lineWords ⟨.importStmt, path :: parts, span, none⟩ =
      "use" :: ["as"].intercalate ((path :: parts).map lineWords) := by
  rw [lineWords_mk]
  simp [arrange, hpath]

theorem lineWords_importNames {name path : Node} {names : List Node} {span : Span}
    (hname : name.kind = .identifier) :
    lineWords ⟨.importStmt, name :: names ++ [path], span, none⟩ =
      "use" :: "\x7b" :: [","].intercalate ((name :: names).map lineWords) ++
        "\x7d" :: "from" :: path.lineWords := by
  rw [lineWords_mk]
  simp only [arrange, List.cons_append, List.head?_cons, Option.any_some, hname, List.map_cons,
    List.map_append, List.map_nil]
  rw [← List.cons_append, List.dropLast_concat, List.getLast?_concat]
  simp

theorem WellFormed.kind_of_name {n : Node} (h : WellFormed .name n) : n.kind = .identifier := by
  cases h
  rfl

theorem WellFormed.kind_of_path {n : Node} (h : WellFormed .path n) : n.kind = .importPath := by
  cases h with
  | address => rfl
  | segments => rfl

end Node

theorem writes_scheme {scheme : String} (h : scheme ∈ importSchemes) :
    TokenKind.identifier.Writes scheme := by
  simp only [importSchemes, List.mem_cons, List.not_mem_nil, or_false] at h
  rcases h with rfl | rfl | rfl | rfl | rfl | rfl
  all_goals exact ⟨_, _, rfl, by decide +kernel⟩

/-- A token of the kind can begin the part. -/
def Part.Starts : Part → TokenKind → Prop
  | expression _ | assignment => fun kind => kind.operandForm?.isSome
  | operand shape => fun kind => kind.operandForm? = some shape
  | name | path | field => fun kind => kind = .identifier
  | entry => fun kind => kind = .string
  | parameters => fun kind => kind = .leftParen
  | block => fun kind => kind = .leftBrace
  | clause isElse => fun kind => Parser.clauseKind? kind = some isElse
  | form shape => fun kind => kind.statementForm? = some shape
  | statement => fun kind => kind.operandForm?.isSome ∨ kind.statementForm?.isSome
  | _ => fun _ => True

namespace Node

theorem WellFormed.starts {part : Part} {n : Node} (h : WellFormed part n) :
    BeginsWith n.lineWords part.Starts := by
  induction h with
  | @literal token kind text span hkind htext =>
      refine ⟨text, [], ?_, ?_⟩
      · unfold Parser.literalKind? at hkind
        split at hkind <;> cases hkind
        all_goals simp [lineWords_mk, arrange]
      · rw [htext.ofWord]
        show token.operandForm? = some .literal
        unfold Parser.literalKind? at hkind
        split at hkind <;> cases hkind
        all_goals rfl
  | @identifier text span htext =>
      refine ⟨text, [], by simp [lineWords_mk, arrange], htext.ofWord⟩
  | name hname ih =>
      refine ih.mono fun kind hkind => ?_
      have hkind : kind = .identifier := hkind
      subst hkind
      rfl
  | call _ _ ihcallee =>
      rw [lineWords_mk]
      refine ((ihcallee.mono fun kind hkind => ?_).append _).append _
      rw [show kind = .identifier from hkind]
      rfl
  | array => exact beginsWith_spelled .leftBracket (lineWords_mk _ _ _ _) rfl rfl
  | object => exact beginsWith_spelled .leftBrace (lineWords_mk _ _ _ _) rfl rfl
  | lambda => exact beginsWith_spelled (.keyword .fnKw) (lineWords_mk _ _ _ _) rfl rfl
  | macroCall hsigil htext => exact beginsWith_spelled _ (lineWords_mk _ _ _ _) htext hsigil
  | awaitExpr => exact beginsWith_spelled (.keyword .awaitKw) (lineWords_mk _ _ _ _) rfl rfl
  | bang hword htext => exact beginsWith_spelled _ (lineWords_mk _ _ _ _) htext hword
  | operand _ ih =>
      refine ih.mono fun kind hkind => ?_
      show kind.operandForm?.isSome
      rw [show kind.operandForm? = some _ from hkind]
      rfl
  | operation hform hkind htext _ _ _ _ ihleft =>
      rw [lineWords_operation hkind hform htext]
      exact ihleft.append _
  | subscript _ _ _ _ ihleft =>
      rw [lineWords_subscript]
      exact ihleft.append _
  | entry htext =>
      rw [lineWords_mk]
      exact ⟨_, _, rfl, htext.ofWord⟩
  | parameters => exact beginsWith_spelled .leftParen (lineWords_mk _ _ _ _) rfl rfl
  | block => exact beginsWith_spelled .leftBrace (lineWords_mk _ _ _ _) rfl rfl
  | statement _ ih =>
      refine ih.mono fun kind hkind => .inr ?_
      rw [show kind.statementForm? = some _ from hkind]
      rfl
  | assignment _ ih => exact ih.mono fun kind hkind => .inl hkind
  | bare _ ih =>
      rw [lineWords_mk]
      exact ih.append _
  | @assign token text kind target value span hkind _ _ _ _ ihtarget =>
      rw [lineWords_mk]
      unfold Parser.assignmentKind? at hkind
      split at hkind <;> cases hkind
      all_goals exact ihtarget.append _
  | @functionDecl isAsync =>
      cases isAsync with
      | false => exact beginsWith_spelled (.keyword .fnKw) (lineWords_mk _ _ _ _) rfl rfl
      | true => exact beginsWith_spelled (.keyword .asyncKw) (lineWords_mk _ _ _ _) rfl rfl
  | macroDecl => exact beginsWith_spelled (.keyword .macroKw) (lineWords_mk _ _ _ _) rfl rfl
  | structDecl => exact beginsWith_spelled (.keyword .structKw) (lineWords_mk _ _ _ _) rfl rfl
  | field _ _ ihname =>
      rw [lineWords_mk]
      exact ihname.append _
  | importPath hpath =>
      exact beginsWith_spelled (.keyword .useKw) (lineWords_importStmt hpath.kind_of_path) rfl rfl
  | importAs hpath =>
      exact beginsWith_spelled (.keyword .useKw) (lineWords_importStmt hpath.kind_of_path) rfl rfl
  | importNames hnames hsome =>
      obtain ⟨name, names, rfl⟩ := List.exists_cons_of_ne_nil hsome
      have hname := (hnames name (by simp)).kind_of_name
      exact beginsWith_spelled (.keyword .useKw) (lineWords_importNames hname) rfl rfl
  | address hscheme =>
      rw [lineWords_mk]
      exact ⟨_, _, rfl, (writes_scheme hscheme).ofWord⟩
  | segments hscheme =>
      rw [lineWords_mk]
      exact ⟨_, _, rfl, (writes_scheme hscheme).ofWord⟩
  | forStmt => exact beginsWith_spelled (.keyword .forKw) (lineWords_mk _ _ _ _) rfl rfl
  | ifStmt => exact beginsWith_spelled (.keyword .ifKw) (lineWords_mk _ _ _ _) rfl rfl
  | elifClause => exact beginsWith_spelled (.keyword .elifKw) (lineWords_mk _ _ _ _) rfl rfl
  | elseClause => exact beginsWith_spelled (.keyword .elseKw) (lineWords_mk _ _ _ _) rfl rfl
  | bareReturn => exact beginsWith_spelled (.keyword .returnKw) (lineWords_mk _ _ _ _) rfl rfl
  | returnStmt => exact beginsWith_spelled (.keyword .returnKw) (lineWords_mk _ _ _ _) rfl rfl

theorem WellFormed.opensParameters_operand {form : OperandForm} {n : Node}
    (h : WellFormed (.operand form) n)
    (hfn : TokenKind.ofWords n.lineWords = .keyword .fnKw) :
    ∃ rest, n.lineWords = "fn" :: "(" :: rest := by
  have hform : (TokenKind.ofWords n.lineWords).operandForm? = some form := h.starts.ofWords
  rw [hfn] at hform
  cases hform
  cases h with
  | lambda hparameters hbody =>
      cases hparameters
      exact ⟨_, by rw [lineWords_mk, List.map_cons, lineWords_mk]; rfl⟩

theorem opensParameters_append {words behind : List String} {p : TokenKind → Prop}
    (hwords : BeginsWith words p)
    (hopens : TokenKind.ofWords words = .keyword .fnKw → ∃ rest, words = "fn" :: "(" :: rest)
    (hfn : TokenKind.ofWords (words ++ behind) = .keyword .fnKw) :
    ∃ rest, words ++ behind = "fn" :: "(" :: rest := by
  obtain ⟨word, later, rfl, -⟩ := hwords
  obtain ⟨rest, hrest⟩ := hopens hfn
  exact ⟨rest ++ behind, by rw [hrest]; rfl⟩

theorem WellFormed.opensParameters_expression {part : Part} {n : Node} (h : WellFormed part n) :
    ∀ power, part = .expression power → TokenKind.ofWords n.lineWords = .keyword .fnKw →
      ∃ rest, n.lineWords = "fn" :: "(" :: rest := by
  induction h with
  | operand hoperand =>
      rintro _ - hfn
      exact hoperand.opensParameters_operand hfn
  | operation hform hkind htext _ hleft _ _ ih =>
      rintro power - hfn
      rw [lineWords_operation hkind hform htext] at hfn ⊢
      exact opensParameters_append hleft.starts (ih _ rfl) hfn
  | subscript _ hleft _ _ ih =>
      rintro power - hfn
      rw [lineWords_subscript] at hfn ⊢
      exact opensParameters_append hleft.starts (ih _ rfl) hfn
  | _ =>
      rintro _ hpart
      cases hpart

theorem WellFormed.opensParameters_assignment {n : Node} (h : WellFormed .assignment n)
    (hfn : TokenKind.ofWords n.lineWords = .keyword .fnKw) :
    ∃ rest, n.lineWords = "fn" :: "(" :: rest := by
  have hbefore : ∀ {value : Node} (behind : List String),
      WellFormed (.expression .assignment) value → n.lineWords = value.lineWords ++ behind →
        ∃ rest, n.lineWords = "fn" :: "(" :: rest := by
    intro value behind hvalue hwords
    rw [hwords] at hfn ⊢
    exact opensParameters_append hvalue.starts (hvalue.opensParameters_expression _ rfl) hfn
  cases h with
  | bare hvalue =>
      refine hbefore [] hvalue ?_
      rw [lineWords_mk]
      rfl
  | assign hkind htext htarget =>
      exact hbefore _ htarget (lineWords_assign hkind htext _ _ _)

end Node

def AllWords (words : List String) : Prop := ∀ word ∈ words, IsWord word

namespace AllWords

variable {first second : List String} {parts : List (List String)}

theorem nil : AllWords [] := nofun

theorem cons {word : String} (hword : IsWord word) (h : AllWords first) : AllWords (word :: first) :=
  List.forall_mem_cons.mpr ⟨hword, h⟩

theorem spelled (kind : TokenKind) {word : String} (hword : kind.spelling? = some word)
    (h : AllWords first) : AllWords (word :: first) :=
  cons ⟨kind, TokenKind.writes_of_spelling? hword, TokenKind.isSound_of_spelling? hword⟩ h

theorem newline : AllWords ["\n"] :=
  cons ⟨.newline, TokenKind.writes_newline, rfl, nofun⟩ nil

theorem append (h : AllWords first) (h' : AllWords second) : AllWords (first ++ second) :=
  List.forall_mem_append.mpr ⟨h, h'⟩

theorem flatten (h : ∀ part ∈ parts, AllWords part) : AllWords parts.flatten := by
  intro word hword
  obtain ⟨part, hpart, hword⟩ := List.mem_flatten.mp hword
  exact h part hpart word hword

theorem lines (h : ∀ part ∈ parts, AllWords part) : AllWords (parts.map (· ++ ["\n"])).flatten := by
  refine flatten fun line hline => ?_
  obtain ⟨part, hpart, rfl⟩ := List.mem_map.mp hline
  exact (h part hpart).append newline

theorem intercalate (kind : TokenKind) {separator : String} (hword : kind.spelling? = some separator)
    (h : ∀ part ∈ parts, AllWords part) : AllWords ([separator].intercalate parts) := by
  cases parts with
  | nil => exact nil
  | cons part parts =>
      rw [intercalate_cons]
      refine (h part (by simp)).append (flatten fun later hlater => ?_)
      obtain ⟨other, hother, rfl⟩ := List.mem_map.mp hlater
      exact spelled kind hword (h other (by simp [hother]))

theorem map {nodes : List Node} (h : ∀ n ∈ nodes, AllWords n.lineWords) :
    ∀ part ∈ nodes.map Node.lineWords, AllWords part := by
  intro part hpart
  obtain ⟨n, hn, rfl⟩ := List.mem_map.mp hpart
  exact h n hn

end AllWords

namespace Node

theorem WellFormed.allWords {part : Part} {n : Node} (h : WellFormed part n) :
    AllWords n.lineWords := by
  induction h with
  | @literal token kind text span hkind htext =>
      have hsound : token.IsSound := by
        unfold Parser.literalKind? at hkind
        split at hkind <;> cases hkind
        all_goals exact ⟨rfl, nofun⟩
      have hwords : lineWords ⟨kind, [], span, some text⟩ = [text] := by
        unfold Parser.literalKind? at hkind
        split at hkind <;> cases hkind
        all_goals rw [lineWords_mk, arrange]; rfl
      rw [hwords]
      exact .cons ⟨token, htext, hsound⟩ .nil
  | identifier htext =>
      rw [lineWords_mk]
      exact .cons ⟨_, htext, rfl, nofun⟩ .nil
  | name _ ih => exact ih
  | call _ _ ihcallee ihvalues =>
      rw [lineWords_mk]
      exact (ihcallee.append (.spelled .leftParen rfl (.intercalate .comma rfl (.map ihvalues)))).append
        (.spelled .rightParen rfl .nil)
  | array _ ih =>
      rw [lineWords_mk]
      exact .spelled .leftBracket rfl ((AllWords.intercalate .comma rfl (.map ih)).append
        (.spelled .rightBracket rfl .nil))
  | object _ ih =>
      rw [lineWords_mk]
      exact .spelled .leftBrace rfl ((AllWords.intercalate .comma rfl (.map ih)).append
        (.spelled .rightBrace rfl .nil))
  | lambda _ _ ihparameters ihbody =>
      rw [lineWords_mk]
      exact .spelled (.keyword .fnKw) rfl (ihparameters.append (ihbody.append .nil))
  | macroCall _ htext _ _ ihcallee ihvalues =>
      rw [lineWords_mk]
      exact .spelled _ htext ((ihcallee.append (.spelled .leftParen rfl
        (.intercalate .comma rfl (.map ihvalues)))).append (.spelled .rightParen rfl .nil))
  | awaitExpr _ ih =>
      rw [lineWords_mk]
      exact .spelled (.keyword .awaitKw) rfl (ih.append .nil)
  | bang _ htext _ ih =>
      rw [lineWords_mk]
      exact .spelled _ htext (ih.append .nil)
  | operand _ ih => exact ih
  | operation hform hkind htext _ _ _ _ ihleft ihright =>
      rw [lineWords_operation hkind hform htext]
      exact ihleft.append (.spelled _ htext ihright)
  | subscript _ _ _ _ ihleft ihindex =>
      rw [lineWords_mk]
      exact (AllWords.intercalate .leftBracket rfl (by simpa using ⟨ihleft, ihindex⟩)).append
        (.spelled .rightBracket rfl .nil)
  | entry htext _ ih =>
      rw [lineWords_mk]
      exact .cons ⟨_, htext, rfl, nofun⟩ (.spelled .colon rfl (ih.append .nil))
  | parameters _ ih =>
      rw [lineWords_mk]
      exact .spelled .leftParen rfl ((AllWords.intercalate .comma rfl (.map ih)).append
        (.spelled .rightParen rfl .nil))
  | block _ ih =>
      rw [lineWords_mk]
      exact .spelled .leftBrace rfl ((AllWords.lines (.map ih)).append (.spelled .rightBrace rfl .nil))
  | statement _ ih => exact ih
  | assignment _ ih => exact ih
  | bare _ ih =>
      rw [lineWords_mk]
      exact ih.append .nil
  | @assign token text kind target value span hkind htext _ _ _ ihtarget ihvalue =>
      have hparts : ∀ part ∈ [target, value].map lineWords, AllWords part := by
        simpa using ⟨ihtarget, ihvalue⟩
      rw [lineWords_mk]
      unfold Parser.assignmentKind? at hkind
      split at hkind <;> cases hkind
      · exact .intercalate (.operator .assign) rfl hparts
      · exact .intercalate (.operator .colonAssign) rfl hparts
      all_goals exact .intercalate _ htext hparts
  | @functionDecl isAsync _ _ _ _ _ _ _ ihname ihparameters ihbody =>
      have hparts : AllWords ([_, _, _].map lineWords).flatten :=
        ihname.append (ihparameters.append (ihbody.append .nil))
      rw [lineWords_mk]
      cases isAsync with
      | false => exact .spelled (.keyword .fnKw) rfl hparts
      | true => exact .spelled (.keyword .asyncKw) rfl (.spelled (.keyword .fnKw) rfl hparts)
  | macroDecl _ _ _ ihname ihparameters ihbody =>
      rw [lineWords_mk]
      exact .spelled (.keyword .macroKw) rfl (ihname.append (ihparameters.append (ihbody.append .nil)))
  | structDecl _ _ _ ihname ihfields ihmethods =>
      rw [lineWords_mk]
      refine .spelled (.keyword .structKw) rfl ((ihname.append (.spelled .leftBrace rfl ?_)).append
        (.spelled .rightBrace rfl .nil))
      exact AllWords.lines (.map (List.forall_mem_append.mpr ⟨ihfields, ihmethods⟩))
  | field _ _ ihname ihvalue =>
      rw [lineWords_mk]
      exact .intercalate (.operator .assign) rfl (by simpa using ⟨ihname, ihvalue⟩)
  | importPath hpath ih =>
      rw [lineWords_importStmt hpath.kind_of_path]
      exact .spelled (.keyword .useKw) rfl (.intercalate (.keyword .asKw) rfl (by simpa using ih))
  | importAs hpath _ ihpath ihname =>
      rw [lineWords_importStmt hpath.kind_of_path]
      exact .spelled (.keyword .useKw) rfl
        (.intercalate (.keyword .asKw) rfl (by simpa using ⟨ihpath, ihname⟩))
  | importNames hnames hsome _ ihnames ihpath =>
      obtain ⟨name, names, rfl⟩ := List.exists_cons_of_ne_nil hsome
      rw [lineWords_importNames (hnames name (by simp)).kind_of_name]
      exact .spelled (.keyword .useKw) rfl (.spelled .leftBrace rfl
        ((AllWords.intercalate .comma rfl (.map ihnames)).append
          (.spelled .rightBrace rfl (.spelled (.keyword .fromKw) rfl ihpath))))
  | address hscheme htext =>
      rw [lineWords_mk]
      refine .cons ⟨_, writes_scheme hscheme, rfl, nofun⟩ (.spelled .colon rfl ?_)
      exact .cons ⟨_, htext, rfl, nofun⟩ .nil
  | segments hscheme _ _ ih =>
      rw [lineWords_mk]
      exact .cons ⟨_, writes_scheme hscheme, rfl, nofun⟩
        (.spelled .colon rfl (.intercalate .dot rfl (.map ih)))
  | forStmt _ _ ihcondition ihbody =>
      rw [lineWords_mk]
      exact .spelled (.keyword .forKw) rfl (ihcondition.append (ihbody.append .nil))
  | ifStmt _ _ _ _ _ ihcondition ihbody ihclauses ihlast =>
      rw [lineWords_mk]
      refine .spelled (.keyword .ifKw) rfl (ihcondition.append (ihbody.append ?_))
      exact AllWords.flatten (.map (List.forall_mem_append.mpr ⟨ihclauses, ihlast⟩))
  | elifClause _ _ ihcondition ihbody =>
      rw [lineWords_mk]
      exact .spelled (.keyword .elifKw) rfl (ihcondition.append (ihbody.append .nil))
  | elseClause _ ih =>
      rw [lineWords_mk]
      exact .spelled (.keyword .elseKw) rfl (ih.append .nil)
  | bareReturn =>
      rw [lineWords_mk]
      exact .spelled (.keyword .returnKw) rfl .nil
  | returnStmt _ ih =>
      rw [lineWords_mk]
      exact .spelled (.keyword .returnKw) rfl (ih.append .nil)

end Node

end ScriptSyntax
