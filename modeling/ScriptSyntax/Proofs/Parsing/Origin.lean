import ScriptSyntax.Proofs.Parsing.Binding
import ScriptSyntax.Proofs.Tree.Every

/-!
Where the nodes of a tree come from.  Each node is a name or a key that is a single token, the root of
what a rule of the grammar makes, or an error node, `Reads.every_origin`.  So what holds of every node of a
parse is shown rule by rule, without another induction over the grammar; and so is what holds of every node
and of the reports of the parse, if later reports do not undo it, `Reads.lasts`.
-/

namespace ScriptSyntax

/-- The part gives nodes that one of its rules makes. -/
def Part.makes : Part → Bool
  | operand _ | continuation _ _ _ | entry | parameters | block | assignment | form _ | field
  | clause _ => true
  | _ => false

/-- The ways in which a node gets into the tree of a parse that begins in the state `first`. -/
inductive Origin (first : State) : Node → Prop where
  | name {s : State} (hs : first.Within s) (hkind : s.kind = .identifier) :
      Origin first (s.leaf .identifier)
  | string {s : State} (hs : first.Within s) (hkind : s.kind = .string) :
      Origin first (s.leaf .stringLit)
  | path {parts : List Node} {span : Span} {s s' t : State} (hs : first.Within s)
      (hkind : s.kind = .identifier) (hparts : Reads false .segments parts t s') :
      Origin first ⟨.importPath, parts, span, some s.current.text⟩
  | gap (span : Span) : Origin first (Node.error span [])
  | wrapping {n : Node} (hplace : n.IsMisplaced) : Origin first n.errorWrapping
  | made {part : Part} {n : Node} {s s' : State} (hs : first.Within s) (hfollows : part.Follows s)
      (hmakes : part.makes) (h : Reads false part [n] s s') : Origin first n

/-- A property of a node and of what is reported by then that a node of any origin has once it is read, and keeps
when more is reported. -/
structure Lasting (first : State) (P : List Diagnostic → Node → Prop) : Prop where
  later : ∀ {reports reports' : List Diagnostic} {n : Node}, reports <:+ reports' → P reports n → P reports' n
  name : ∀ {s : State} (reports : List Diagnostic), first.Within s → s.kind = .identifier →
    P reports (s.leaf .identifier)
  string : ∀ {s : State} (reports : List Diagnostic), first.Within s → s.kind = .string →
    P reports (s.leaf .stringLit)
  path : ∀ {parts : List Node} {s s' t : State} (reports : List Diagnostic) (span : Span), first.Within s →
    s.kind = .identifier → Reads false .segments parts t s' →
      P reports ⟨.importPath, parts, span, some s.current.text⟩
  gap : ∀ (reports : List Diagnostic) (span : Span), P reports (Node.error span [])
  wrapping : ∀ {n : Node} (reports : List Diagnostic), n.IsMisplaced → P reports n.errorWrapping
  made : ∀ {part : Part} {n : Node} {s s' : State}, first.Within s → part.Follows s → part.makes →
    Reads false part [n] s s' → P s'.reports n

/-- The nodes and those below them have the property. -/
def Lasts (P : List Diagnostic → Node → Prop) (reports : List Diagnostic) (nodes : List Node) : Prop :=
  ∀ n ∈ nodes, n.Every (P reports)

variable {part : Part} {nodes : List Node} {first s s' : State} {P : List Diagnostic → Node → Prop}

namespace Lasting

variable {n : Node} {reports reports' : List Diagnostic} (hP : Lasting first P)
include hP

theorem lasts (hnodes : Lasts P reports nodes) (hlater : reports <:+ reports') : Lasts P reports' nodes :=
  fun n hn => (hnodes n hn).mono fun _ => hP.later hlater

theorem lasts_name (hs : first.Within s) (hkind : s.kind = .identifier) (hrest : Lasts P reports nodes) :
    Lasts P reports (s.leaf .identifier :: nodes) :=
  List.forall_mem_cons.mpr ⟨Node.every_iff.mpr ⟨hP.name reports hs hkind, nofun⟩, hrest⟩

theorem lasts_string (hs : first.Within s) (hkind : s.kind = .string) (hrest : Lasts P reports nodes) :
    Lasts P reports (s.leaf .stringLit :: nodes) :=
  List.forall_mem_cons.mpr ⟨Node.every_iff.mpr ⟨hP.string reports hs hkind, nofun⟩, hrest⟩

theorem lasts_gap (span : Span) (hrest : Lasts P reports nodes) : Lasts P reports (Node.error span [] :: nodes) :=
  List.forall_mem_cons.mpr ⟨Node.every_iff.mpr ⟨hP.gap reports span, nofun⟩, hrest⟩

theorem lasts_path {parts : List Node} {t : State} {span : Span} (hs : first.Within s)
    (hkind : s.kind = .identifier) (hparts : Reads false .segments parts t s') (hbelow : Lasts P reports parts) :
    Lasts P reports [⟨.importPath, parts, span, some s.current.text⟩] :=
  List.forall_mem_singleton.mpr (Node.every_iff.mpr ⟨hP.path reports span hs hkind hparts, hbelow⟩)

theorem lasts_wrapping (hn : Lasts P reports [n]) (hplace : n.IsMisplaced) :
    Lasts P reports [n.errorWrapping] :=
  List.forall_mem_singleton.mpr (Node.every_iff.mpr ⟨hP.wrapping reports hplace, hn⟩)

theorem lasts_made (hs : first.Within s) (h : Reads false part [n] s s') (hfollows : part.Follows s)
    (hmakes : part.makes) (hbelow : Lasts P s'.reports n.children) : Lasts P s'.reports [n] :=
  List.forall_mem_singleton.mpr (Node.every_iff.mpr ⟨hP.made hs hfollows hmakes h, hbelow⟩)

theorem lasts_later (hnodes : Lasts P s.reports nodes) (hlater : s.Advances s') :
    Lasts P s'.reports nodes :=
  hP.lasts hnodes hlater.reports

theorem lasts_reported (hnodes : Lasts P s.reports nodes) (d : Diagnostic) :
    Lasts P (s.reported d).reports nodes :=
  hP.lasts hnodes (List.suffix_cons d _)

theorem lasts_append {first second : List Node} (hfirst : Lasts P s.reports first)
    (hlater : s.Advances s') (hsecond : Lasts P s'.reports second) :
    Lasts P s'.reports (first ++ second) :=
  List.forall_mem_append.mpr ⟨hP.lasts_later hfirst hlater, hsecond⟩

end Lasting

theorem Reads.isMisplaced {isElse : Bool} {node : Node} (h : Reads false (.clause isElse) [node] s s') :
    node.IsMisplaced := by
  have hkind := h.admits_only nofun
  cases isElse with
  | false => exact .inr (.inr (.inl hkind))
  | true => exact .inr (.inr (.inr (.inl hkind)))

/-- A lasting property holds of every node of a parse. -/
theorem Reads.lasts (hP : Lasting first P) (h : Reads false part nodes s s') (hs : first.Within s)
    (hfollows : part.Follows s) (hleft : Lasts P s.reports part.left?.toList) :
    Lasts P s'.reports nodes := by
  induction h with
  | gap | lexicalError => exact hP.lasts_gap _ nofun
  | expression _ _ hoperand _ ihleft ihclimb =>
      have hbinds := hoperand.binds hs.entered.toRegular trivial _ (List.mem_singleton_self _)
      exact ihclimb (hs.entered.reads hoperand) (hoperand.follows_operand hbinds)
        (ihleft hs.entered trivial nofun)
  | climbStop => exact hleft
  | climbFold hpending _ hfolded _ ihfolded ihclimb =>
      obtain ⟨hkind, hlt⟩ := State.pending_eq_some.mp hpending
      have hcontinues := hfollows.continuation hkind
      have hbinds := hfolded.binds hs.entered.toRegular hcontinues _ (List.mem_singleton_self _)
      exact ihclimb (hs.entered.reads hfolded) (hfolded.follows_continuation hcontinues hbinds hlt)
        (ihfolded hs.entered hcontinues hleft)
  | literal hkind => exact hP.lasts_made hs (.literal hkind) trivial rfl nofun
  | name hkind hparen => exact hP.lasts_made hs (.name hkind hparen) trivial rfl nofun
  | call hkind hvalues ih =>
      exact hP.lasts_made hs (.call hkind hvalues) trivial rfl
        (hP.lasts_name hs hkind (ih hs.advanced rfl nofun))
  | array helements ih => exact hP.lasts_made hs (.array helements) trivial rfl (ih hs rfl nofun)
  | object hentries ih => exact hP.lasts_made hs (.object hentries) trivial rfl (ih hs rfl nofun)
  | parameters hnames ih => exact hP.lasts_made hs (.parameters hnames) trivial rfl (ih hs rfl nofun)
  | lambda hkind hparameters hbody ihparameters ihbody =>
      exact hP.lasts_made hs (.lambda hkind hparameters hbody) trivial rfl
        (hP.lasts_append (ihparameters hs.advanced trivial nofun) hbody.advances
          (ihbody (hs.advanced.reads hparameters) trivial nofun))
  | macroCall hsigil hname hvalues ih =>
      exact hP.lasts_made hs (.macroCall hsigil hname hvalues) trivial rfl
        (hP.lasts_name hs.advanced hname (ih hs.advanced.advanced rfl nofun))
  | awaitExpr hkind hoperand ih =>
      exact hP.lasts_made hs (.awaitExpr hkind hoperand) trivial rfl (ih hs.advanced trivial nofun)
  | bang hkind hoperand ih =>
      exact hP.lasts_made hs (.bang hkind hoperand) trivial rfl (ih hs.advanced trivial nofun)
  | operation hform hkind hright ih =>
      exact hP.lasts_made hs (.operation hform hkind hright) hfollows rfl
        (hP.lasts_append hleft ((State.advances_advanced_pastNewlines _).trans hright.advances)
          (ih hs.advanced.pastNewlines trivial nofun))
  | @subscript _ _ _ s s₁ hkind hindex hclosing ih =>
      have hinside := (hs.advanced.opened .rightBracket rfl true).pastNewlines
      have hopened := hP.lasts_later hleft s.advances_advanced
      have hindexed := hP.lasts_append (s := s.advanced.opened .rightBracket true) hopened
        ((State.advances_pastNewlines _).trans hindex.advances) (ih hinside trivial nofun)
      exact hP.lasts_made hs (.subscript hkind hindex hclosing) hfollows rfl
        (hP.lasts hindexed s₁.advances_pastNewlines_advanced.reports)
  | identifier hkind => exact hP.lasts_name hs hkind nofun
  | entry hkind hcolon hvalue ih =>
      exact hP.lasts_made hs (.entry hkind hcolon hvalue) trivial rfl
        (hP.lasts_string hs hkind (ih hs.advanced.advanced.pastNewlines trivial nofun))
  | emptyList | noMore | noStatements | noMembers | noMoreSegments | noClauses => exact nofun
  | @items _ closer expressionList item _ _ _ s₁ s₂ _ hfirst hrest _ ihfirst ihrest =>
      have hinside := (hs.advanced.opened closer hfollows expressionList).pastNewlines
      have hitem := ihfirst hinside (item.follows_part _) (by simpa using nofun)
      have hitems := hP.lasts_append hitem (s₁.advances_pastNewlines.trans hrest.advances)
        (ihrest (hinside.reads hfirst).pastNewlines trivial nofun)
      exact hP.lasts hitems s₂.advances_advanced.reports
  | @more item _ _ _ s₁ _ _ hnext hrest ihnext ihrest =>
      have hinside := hs.advanced.pastNewlines
      have hitem := ihnext hinside (item.follows_part _) (by simpa using nofun)
      exact hP.lasts_append hitem (s₁.advances_pastNewlines.trans hrest.advances)
        (ihrest (hinside.reads hnext).pastNewlines trivial nofun)
  | @block _ _ s₁ hdepth hopener hbody hclosing ih =>
      have hinside := hs.entered.advanced.opened .rightBrace rfl false
      exact hP.lasts_made hs (.block hdepth hopener hbody hclosing) trivial rfl
        (hP.lasts (ih hinside trivial nofun) s₁.closed.advances_advanced.reports)
  | openBlock hdepth hopener hbody hclosing _ ih =>
      have hinside := hs.entered.advanced.opened .rightBrace rfl false
      exact hP.lasts_made hs (.openBlock hdepth hopener hbody hclosing rfl) trivial rfl
        (hP.lasts (ih hinside trivial nofun) (List.suffix_cons _ _))
  | whole _ hnode _ hrest ihnode ihrest | members hnode _ hrest ihnode ihrest =>
      exact hP.lasts_append (ihnode hs.pastSeparators trivial nofun) hrest.advances
        (ihrest (hs.pastSeparators.reads hnode) trivial nofun)
  | @joined inBlock _ _ _ s₁ _ _ _ hstatement _ hrecovered _ hrest ihstatement ihrest =>
      subst hrecovered
      have hskips := s₁.advances_reported_recovered (.ofError s₁.missingSeparator) s₁.mark inBlock
      have hafter := (hs.pastSeparators.reads hstatement).advances hskips
      exact hP.lasts_append (ihstatement hs.pastSeparators trivial nofun) (hskips.trans hrest.advances)
        (hP.lasts_gap _ (ihrest hafter trivial nofun))
  | broken _ hstatement hrecovered _ _ ih =>
      subst hrecovered
      have hfailed := hs.pastSeparators.advances (Parser.Forward.advances_of_error _ hstatement)
      exact hP.lasts_gap _ (ih ((hfailed.reported _).recovered _ _) trivial nofun)
  | statement _ ih => exact ih hs.begun (State.follows_statementPart _ _) (by simpa using nofun)
  | bare hvalue hkind ih =>
      exact hP.lasts_made hs (.bare hvalue hkind) trivial rfl (ih hs trivial nofun)
  | @assign _ _ _ _ s₁ _ htarget hkind hvalue hvalid ihtarget ihvalue =>
      exact hP.lasts_made hs (.assign htarget hkind hvalue hvalid) trivial rfl
        (hP.lasts_append (ihtarget hs trivial nofun) (s₁.advances_advanced.trans hvalue.advances)
          (ihvalue (hs.reads htarget).advanced trivial nofun))
  | @misassign _ _ _ _ s₁ _ htarget hkind hvalue hvalid _ ihtarget ihvalue =>
      obtain ⟨-, herror⟩ := Bool.or_eq_false_iff.mp hvalid
      have hexpression := Node.IsExpression.isExpression_kind (htarget.admits_only nofun) herror
      have hwrapped := hP.lasts_wrapping (ihtarget hs trivial nofun) (.inl hexpression)
      have hnodes := hP.lasts_append hwrapped (s₁.advances_advanced.trans hvalue.advances)
        (ihvalue (hs.reads htarget).advanced trivial nofun)
      exact hP.lasts_made hs (.misassign htarget hkind hvalue hvalid rfl) trivial rfl
        (hP.lasts_reported hnodes _)
  | functionDecl hwords hname hparameters hbody ihparameters ihbody =>
      have hs₁ := hs.words hwords
      exact hP.lasts_made hs (.functionDecl hwords hname hparameters hbody) trivial rfl
        (hP.lasts_name hs₁ hname
          (hP.lasts_append (ihparameters hs₁.advanced trivial nofun) hbody.advances
            (ihbody (hs₁.advanced.reads hparameters) trivial nofun)))
  | macroDecl hkind hname hparameters hbody ihparameters ihbody =>
      have hs₁ := hs.advanced.advanced
      exact hP.lasts_made hs (.macroDecl hkind hname hparameters hbody) trivial rfl
        (hP.lasts_name hs.advanced hname
          (hP.lasts_append (ihparameters hs₁ trivial nofun) hbody.advances
            (ihbody (hs₁.reads hparameters) trivial nofun)))
  | @structDecl _ _ s₁ hkind hname hopener hmembers hclosing ih =>
      have hinside := hs.advanced.advanced.advanced.opened .rightBrace rfl false
      exact hP.lasts_made hs (.structDecl hkind hname hopener hmembers hclosing) trivial rfl
        (hP.lasts_name hs.advanced hname
          (hP.lasts (ih hinside trivial nofun) s₁.closed.advances_advanced.reports))
  | method _ _ ih | earlyField _ ih => exact ih hs trivial nofun
  | lateField hfield _ ih =>
      exact hP.lasts_wrapping (hP.lasts_reported (ih hs trivial nofun) _)
        (.inr (.inl (hfield.admits_only nofun)))
  | field hkind hassign hvalue ih =>
      exact hP.lasts_made hs (.field hkind hassign hvalue) trivial rfl
        (hP.lasts_name hs hkind (ih hs.advanced.advanced trivial nofun))
  | importPath hkind hpath has ih =>
      exact hP.lasts_made hs (.importPath hkind hpath has) trivial rfl (ih hs.advanced trivial nofun)
  | @importAs _ _ s₁ hkind hpath has hname ih =>
      exact hP.lasts_made hs (.importAs hkind hpath has hname) trivial rfl
        (hP.lasts_append (ih hs.advanced trivial nofun) s₁.advances_advanced_twice
          (hP.lasts_name (hs.advanced.reads hpath).advanced hname nofun))
  | @importNames _ _ _ s₁ _ hkind hnames hsome hfrom hpath ihnames ihpath =>
      exact hP.lasts_made hs (.importNames hkind hnames hsome hfrom hpath) trivial rfl
        (hP.lasts_append (ihnames hs.advanced rfl nofun) (s₁.advances_advanced.trans hpath.advances)
          (ihpath (hs.advanced.reads hnames).advanced trivial nofun))
  | knownPath hkind _ hparts _ ih =>
      exact hP.lasts_path hs hkind hparts (ih hs.advanced.advanced trivial nofun)
  | unknownPath hkind _ hparts _ _ ih =>
      refine hP.lasts_reported (hP.lasts_wrapping ?_ (.inr (.inr (.inr (.inr rfl))))) _
      exact hP.lasts_path hs hkind hparts (ih hs.advanced.advanced trivial nofun)
  | address hkind => exact hP.lasts_string hs hkind nofun
  | segments hkind _ ih => exact hP.lasts_name hs hkind (ih hs.advanced trivial nofun)
  | moreSegments _ hname _ ih =>
      exact hP.lasts_name hs.advanced hname (ih hs.advanced.advanced trivial nofun)
  | forStmt hkind hcondition hbody ihcondition ihbody =>
      exact hP.lasts_made hs (.forStmt hkind hcondition hbody) trivial rfl
        (hP.lasts_append (ihcondition hs.advanced trivial nofun) hbody.advances
          (ihbody (hs.advanced.reads hcondition) trivial nofun))
  | ifStmt hkind hcondition hbody hclauses ihcondition ihbody ihclauses =>
      have hs₁ := hs.advanced.reads hcondition
      exact hP.lasts_made hs (.ifStmt hkind hcondition hbody hclauses) trivial rfl
        (hP.lasts_append (ihcondition hs.advanced trivial nofun) (hbody.advances.trans hclauses.advances)
          (hP.lasts_append (ihbody hs₁ trivial nofun) hclauses.advances
            (ihclauses (hs₁.reads hbody) trivial nofun)))
  | clauses _ hclause hrest ihclause ihrest =>
      exact hP.lasts_append (ihclause hs.pastNewlines trivial nofun) hrest.advances
        (ihrest (hs.pastNewlines.reads hclause) trivial nofun)
  | @lateClause _ _ _ _ s₁ _ _ hclause hrest _ ihclause ihrest =>
      have hwrapped := hP.lasts_wrapping (ihclause hs.pastNewlines trivial nofun) hclause.isMisplaced
      exact hP.lasts_append hwrapped ((s₁.advances_reported _).trans hrest.advances)
        (ihrest ((hs.pastNewlines.reads hclause).reported _) trivial nofun)
  | elseClause hkind hbody ih =>
      exact hP.lasts_made hs (.elseClause hkind hbody) trivial rfl (ih hs.advanced trivial nofun)
  | elifClause hkind hcondition hbody ihcondition ihbody =>
      exact hP.lasts_made hs (.elifClause hkind hcondition hbody) trivial rfl
        (hP.lasts_append (ihcondition hs.advanced trivial nofun) hbody.advances
          (ihbody (hs.advanced.reads hcondition) trivial nofun))
  | bareReturn hkind hend => exact hP.lasts_made hs (.bareReturn hkind hend) trivial rfl nofun
  | returnStmt hkind hend hvalue ih =>
      exact hP.lasts_made hs (.returnStmt hkind hend hvalue) trivial rfl (ih hs.advanced trivial nofun)

theorem lasting_origin (first : State) : Lasting first fun _ => Origin first where
  later _ h := h
  name _ := .name
  string _ := .string
  path _ _ := .path
  gap _ := .gap
  wrapping _ := .wrapping
  made := .made

theorem Reads.every_origin (h : Reads false part nodes s s') (hs : first.Within s) (hfollows : part.Follows s)
    (hleft : ∀ left ∈ part.left?, left.Every (Origin first)) : ∀ n ∈ nodes, n.Every (Origin first) :=
  h.lasts (lasting_origin first) hs hfollows fun left hmem => hleft left (Option.mem_toList.mp hmem)

end ScriptSyntax
