import ScriptSyntax.Proofs.Parsing.Origin

/-!
The shapes of the nodes that a parse gives.  What each rule of the grammar makes has the children and the
literal of its kind, `Origin.shaped`, whether the script is broken or not.
-/

namespace ScriptSyntax

open Node (Shaped)

theorem exists_binaryOperator {kind : TokenKind} {next : BindingPower}
    (hkind : kind.operatorForm? = some (next, .binary)) :
    ∃ text ∈ binaryOperators, kind.spelling? = some text := by
  unfold TokenKind.operatorForm? at hkind
  split at hkind <;> cases hkind
  all_goals exact ⟨_, by decide, rfl⟩

theorem exists_compoundOperator {kind : TokenKind}
    (hkind : Parser.assignmentKind? kind = some .compoundAssign) :
    ∃ text ∈ compoundOperators, kind.spelling? = some text := by
  unfold Parser.assignmentKind? at hkind
  split at hkind <;> cases hkind
  all_goals exact ⟨_, by decide, rfl⟩

theorem exists_negation {kind : TokenKind} (hkind : kind.operandForm? = some .bang) :
    kind.spelling? = some "!" ∨ kind.spelling? = some "not" := by
  unfold TokenKind.operandForm? at hkind
  split at hkind <;> cases hkind
  · exact .inl rfl
  · exact .inr rfl

theorem exists_sigil {kind : TokenKind} (hkind : kind.operandForm? = some .macroCall) :
    kind.spelling? = some "$" ∨ kind.spelling? = some "@" := by
  unfold TokenKind.operandForm? at hkind
  split at hkind <;> cases hkind
  · exact .inl rfl
  · exact .inr rfl

section
variable {s : State} (hs : s.Regular)
include hs

theorem shaped_name (hkind : s.kind = .identifier) : (s.leaf .identifier).Shaped :=
  ⟨rfl, _, rfl, hs.writes hkind nofun⟩

theorem shaped_string (hkind : s.kind = .string) : (s.leaf .stringLit).Shaped :=
  ⟨rfl, _, rfl, hs.writes hkind nofun⟩

theorem shaped_literal {kind : NodeKind} (hkind : Parser.literalKind? s.kind = some kind) :
    (s.leaf kind).Shaped := by
  obtain ⟨htoken, rfl⟩ | ⟨htoken, rfl⟩ | ⟨htoken, rfl⟩ := Parser.literalKind?_cases hkind
  · exact ⟨rfl, _, rfl, hs.writes htoken nofun⟩
  · exact shaped_string hs htoken
  · exact ⟨rfl, _, rfl, hs.writes htoken nofun⟩

theorem shaped_operation {next : BindingPower} {form : OperatorForm} {left right : Node} {span : Span}
    (hkind : s.kind.operatorForm? = some (next, form)) (hleft : left.IsExpression)
    (hright : right.IsExpression) :
    Shaped ⟨form.nodeKind, [left, right], span, form.literal? s.current.text⟩ := by
  cases form with
  | binary =>
      obtain ⟨text, hmem, htext⟩ := exists_binaryOperator hkind
      exact ⟨⟨left, right, rfl, hleft, hright⟩, text, hmem, congrArg some (hs.text htext)⟩
  | _ => exact ⟨⟨left, right, rfl, hleft, hright⟩, rfl⟩

theorem shaped_assignment {kind : NodeKind} {target value : Node} {span : Span}
    (hkind : Parser.assignmentKind? s.kind = some kind) (htarget : Node.IsAssigned kind target)
    (hvalue : value.IsExpression) :
    Shaped ⟨kind, [target, value], span,
      if kind = .compoundAssign then some s.current.text else none⟩ := by
  obtain ⟨-, rfl⟩ | ⟨-, rfl⟩ | ⟨-, rfl⟩ := Parser.assignmentKind?_cases hkind
  · exact ⟨⟨target, value, rfl, htarget, hvalue⟩, rfl⟩
  · exact ⟨⟨target, value, rfl, htarget, hvalue⟩, rfl⟩
  · obtain ⟨text, hmem, htext⟩ := exists_compoundOperator hkind
    exact ⟨⟨target, value, rfl, htarget, hvalue⟩, text, hmem, congrArg some (hs.text htext)⟩

end

/-- A node has the children and the literal of its kind wherever it comes from. -/
theorem Origin.shaped {first : State} {n : Node} (h : Origin first n) : n.Shaped := by
  cases h with
  | name hs hkind => exact shaped_name hs.toRegular hkind
  | string hs hkind => exact shaped_string hs.toRegular hkind
  | path hs hkind hparts => exact ⟨hparts.segments_cases, _, rfl, hs.writes hkind nofun⟩
  | gap span => exact ⟨.inl nofun, rfl⟩
  | @wrapping inner hplace => exact ⟨.inr ⟨inner, hplace, rfl⟩, rfl⟩
  | made hs hfollows hmakes hreads =>
      cases hreads with
      | literal hkind => exact shaped_literal hs.toRegular hkind
      | name hkind => exact shaped_name hs.toRegular hkind
      | call _ hvalues => exact ⟨⟨_, _, rfl, rfl, hvalues.admits nofun⟩, rfl⟩
      | array helements => exact ⟨helements.admits nofun, rfl⟩
      | object hentries => exact ⟨hentries.admits nofun, rfl⟩
      | lambda _ hparameters hbody =>
          exact ⟨⟨_, _, rfl, hparameters.admits_only nofun, hbody.admits_only nofun⟩, rfl⟩
      | macroCall hsigil _ hvalues =>
          have hliteral := (exists_sigil hsigil).imp hs.text hs.text
          exact ⟨⟨_, _, rfl, rfl, hvalues.admits nofun⟩,
            hliteral.imp (congrArg some) (congrArg some)⟩
      | awaitExpr _ hoperand => exact ⟨⟨_, rfl, hoperand.admits_only nofun⟩, rfl⟩
      | bang hkind hoperand =>
          have hliteral := (exists_negation hkind).imp hs.text hs.text
          exact ⟨⟨_, rfl, hoperand.admits_only nofun⟩,
            hliteral.imp (congrArg some) (congrArg some)⟩
      | lexicalError => exact ⟨.inl nofun, rfl⟩
      | operation _ hkind hright =>
          exact shaped_operation hs.toRegular hkind hfollows.1 (hright.admits_only nofun)
      | subscript _ hindex =>
          exact ⟨⟨_, _, rfl, hfollows.1, hindex.admits_only nofun⟩, rfl⟩
      | entry _ _ hvalue => exact ⟨⟨_, _, rfl, rfl, hvalue.admits_only nofun⟩, rfl⟩
      | parameters hnames => exact ⟨hnames.admits nofun, rfl⟩
      | block _ _ hbody => exact ⟨hbody.admits nofun, rfl⟩
      | openBlock _ _ hbody => exact ⟨.inl (hbody.admits nofun), rfl⟩
      | bare hvalue => exact ⟨⟨_, rfl, hvalue.admits_only nofun⟩, rfl⟩
      | @assign _ target value _ _ _ htarget hkind hvalue hvalid =>
          have hs₁ := hs.reads htarget
          refine shaped_assignment hs₁.toRegular hkind ?_ (hvalue.admits_only nofun)
          rcases (Bool.or_eq_true _ _).mp hvalid with hvalid | herror
          · exact .inl (Node.isValidTarget_iff.mp hvalid)
          · exact .inr (.inl (Node.IsExpression.isGap (htarget.admits_only nofun) herror))
      | @misassign kind target value _ _ _ htarget hkind hvalue hvalid =>
          have hs₁ := hs.reads htarget
          obtain ⟨hinvalid, herror⟩ := Bool.or_eq_false_iff.mp hvalid
          have hexpression :=
            Node.IsExpression.isExpression_kind (htarget.admits_only nofun) herror
          have htarget' : ¬Node.IsTarget kind target := by
            rw [← Node.isValidTarget_iff, hinvalid]
            exact Bool.false_ne_true
          exact shaped_assignment hs₁.toRegular hkind (.inr (.inr ⟨target, ⟨hexpression, htarget'⟩, rfl⟩))
            (hvalue.admits_only nofun)
      | @functionDecl isAsync _ _ _ _ _ _ _ _ hparameters hbody =>
          refine ⟨⟨_, _, _, rfl, rfl, hparameters.admits_only nofun, hbody.admits_only nofun⟩, ?_⟩
          cases isAsync with
          | false => exact .inl rfl
          | true => exact .inr rfl
      | macroDecl _ _ hparameters hbody =>
          exact ⟨⟨_, _, _, rfl, rfl, hparameters.admits_only nofun, hbody.admits_only nofun⟩, rfl⟩
      | structDecl _ _ _ hmembers => exact ⟨⟨_, _, rfl, rfl, hmembers.areMembers rfl⟩, rfl⟩
      | field _ _ hvalue => exact ⟨⟨_, _, rfl, rfl, hvalue.admits_only nofun⟩, rfl⟩
      | importPath _ hpath => exact ⟨.inl ⟨_, rfl, hpath.admits_only nofun⟩, rfl⟩
      | importAs _ hpath =>
          exact ⟨.inr (.inl ⟨_, _, rfl, hpath.admits_only nofun, rfl⟩), rfl⟩
      | importNames _ hnames hsome _ hpath =>
          exact ⟨.inr (.inr ⟨_, _, rfl, hsome, hnames.admits nofun, hpath.admits_only nofun⟩), rfl⟩
      | forStmt _ hcondition hbody | elifClause _ hcondition hbody =>
          exact ⟨⟨_, _, rfl, hcondition.admits_only nofun, hbody.admits_only nofun⟩, rfl⟩
      | ifStmt _ hcondition hbody hclauses =>
          exact ⟨⟨_, _, _, rfl, hcondition.admits_only nofun, hbody.admits_only nofun,
            hclauses.areClauses rfl⟩, rfl⟩
      | elseClause _ hbody => exact ⟨⟨_, rfl, hbody.admits_only nofun⟩, rfl⟩
      | bareReturn => exact ⟨.inl rfl, rfl⟩
      | returnStmt _ _ hvalue => exact ⟨.inr ⟨_, rfl, hvalue.admits_only nofun⟩, rfl⟩
      | _ => cases hmakes

theorem every_shaped (source : String) (options : Options) :
    (parse source options).root.Every Shaped := by
  obtain ⟨body, s', hroot, -, hreads, -⟩ := parse_reads source options
  have hbelow := hreads.every_origin (State.regular_ofSource source options).within trivial nofun
  rw [hroot]
  refine Node.every_iff.mpr ⟨⟨hreads.admits nofun, rfl⟩, ?_⟩
  exact fun child hchild n hn => (hbelow child hchild n hn).shaped

/-- The tree of any source is that of a file, and each of its nodes has the children and the literal of its
kind. -/
theorem parse_shaped (source : String) (options : Options) :
    (parse source options).root.kind = .sourceFile ∧
      (parse source options).root.Every fun n => n.Shaped ∧
        ∀ count, n.kind.fixedArity? = some count → n.children.length = count := by
  have hall := every_shaped source options
  constructor
  · obtain ⟨body, s', hroot, -⟩ := parse_reads source options
    rw [hroot]
    rfl
  · exact fun n hn => ⟨hall n hn, fun _ hcount => (hall n hn).parts.arity hcount⟩

end ScriptSyntax
