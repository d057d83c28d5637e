import ScriptSyntax.Proofs.Parsing.Placed
import ScriptSyntax.Proofs.Parsing.Twice

/-!
Where the nodes of a parse stand.  The tokens of a source lie in order, so the parts of a node lie one
behind the other inside of it, with one exception: a block that the file ends in stops at the last token,
while a gap at its end stands at the end of the file.
-/

namespace ScriptSyntax

/-- The nodes that a part of the grammar gives lie between its beginning and its end. -/
theorem Reads.lies {last eof : Nat} {part : Part} {nodes : List Node} {s s' : State} (h : Reads clean part nodes s s') :
    part.Lies last eof nodes s s' := by
  induction h with
  | @gap power s =>
      have hreported := s.advances_entered.trans (s.entered.advances_reported s.gapDiagnostic)
      refine .of_single hreported.leaving fun base _ hbase => Node.Placed.lies ?_ rfl
      exact Node.placed_childless hbase (Nat.le_refl _) (.inr rfl)
  | expression _ _ _ _ ihleft ihclimb => exact ihleft.climbed ihclimb
  | climbStop => exact .of_single (.refl _) fun _ _ hbase => Node.Placed.lies hbase rfl
  | climbFold _ _ _ _ ihfolded ihclimb => exact ihfolded.folded ihclimb
  | literal hkind => exact .leaf _ rfl (State.kind_ne_of_literalKind? hkind)
  | name hkind | identifier hkind | address hkind =>
      exact .leaf _ rfl (State.kind_ne_of_eq hkind (by simp))
  | call hkind hvalues ihvalues =>
      have hfile := State.kind_ne_of_eq hkind (by simp)
      exact (ihvalues.named hfile rfl).around (.refl _) hfile ihvalues.advances rfl rfl rfl
  | array hlist ih | object hlist ih | parameters hlist ih =>
      obtain ⟨hopener, hread⟩ := hlist.advanced_of_list
      exact ih.around (.refl _) (State.kind_ne_of_eq hopener (by simp)) hread rfl rfl rfl
  | macroCall hsigil hname hvalues ihvalues =>
      have hread := (State.advances_advanced _).trans ihvalues.advances
      exact (ihvalues.named (State.kind_ne_of_eq hname (by simp)) rfl).around (State.advances_advanced _)
        (State.kind_ne_of_operandForm? hsigil) hread rfl rfl rfl
  | lambda _ _ _ ihfirst ihbody | forStmt _ _ _ ihfirst ihbody | elifClause _ _ _ ihfirst ihbody =>
      exact ihfirst.through_last ihbody (State.advances_advanced _) (.refl _) rfl rfl rfl fun _ => rfl
  | awaitExpr _ _ ih | bang _ _ ih | elseClause _ _ ih | returnStmt _ _ _ ih =>
      exact ih.through rfl rfl (by simp [Part.endsInToken])
  | bareReturn hkind => exact .token (State.kind_ne_of_eq hkind (by simp)) rfl rfl
  | lexicalError hkind =>
      exact (Part.Lies.token (State.kind_ne_of_eq hkind (by simp)) rfl rfl).reported _
  | @operation next left right form s s' _ _ _ ihright =>
      have hskip := s.advances_advanced_pastNewlines
      exact .of_single (hskip.trans ihright.advances) fun _ hs hleft =>
        ihright.between hleft hs hskip rfl rfl
  | subscript _ _ hclosing ihindex => exact ihindex.subscript hclosing
  | @entry value s s' hkind _ _ ihvalue =>
      have hkey : Part.name.Lies last eof [s.leaf .stringLit] s s.advanced :=
        .leaf _ rfl (State.kind_ne_of_eq hkind (by simp))
      exact hkey.through_last ihvalue (.refl _) s.advanced.advances_advanced_pastNewlines rfl rfl rfl
        (by simp [Part.endsInToken])
  | @field value s s' hkind _ _ ihvalue =>
      have hname : Part.name.Lies last eof [s.leaf .identifier] s s.advanced :=
        .leaf _ rfl (State.kind_ne_of_eq hkind (by simp))
      exact hname.through_last ihvalue (.refl _) s.advanced.advances_advanced rfl rfl rfl
        (by simp [Part.endsInToken])
  | emptyList => exact .nil (State.advances_advanced _).bracketLines
  | noMore | noMoreSegments | noClauses => exact .nil (.refl _)
  | noStatements | noMembers => exact .nil (State.advances_pastSeparators _)
  | items _ _ _ hcloser ihfirst ihrest =>
      exact (ihfirst.cons ihrest (.refl _) (State.advances_pastNewlines _) (by simp) rfl
        (by simp [Part.endsInToken])).items hcloser
  | more _ _ _ ihnext ihrest =>
      exact ihnext.cons ihrest (State.advances_advanced_pastNewlines _) (State.advances_pastNewlines _)
        (by simp) rfl (by simp [Part.endsInToken])
  | block _ _ _ hclosing ihbody => exact ihbody.block hclosing
  | openBlock _ hopener hbody hclosing _ ihbody =>
      -- the statements end at the end of the file, since no brace closes the block
      refine ihbody.openBlock hopener ?_ _
      simpa [Parser.atListEnd, hclosing] using hbody.atListEnd true rfl
  | whole _ _ _ _ ihstatement ihrest =>
      exact ihstatement.cons ihrest (State.advances_pastSeparators _) (.refl _) rfl rfl
        (by simp [Part.endsInToken])
  | @joined inBlock node rest s s₁ s₂ s₃ _ _ _ hrecovered _ _ ihstatement ihrest =>
      have hskip : s₁.Advances s₂ := hrecovered ▸ s₁.advances_reported_recovered _ _ _
      have hskipped := (Part.Lies.skipped hskip).cons ihrest (.refl _) (.refl _) rfl rfl
        (by simp [Part.endsInToken])
      exact ihstatement.cons hskipped s.advances_pastSeparators (.refl _) rfl rfl
        (by simp [Part.endsInToken])
  | @broken inBlock levels e rest s s₁ s₂ s₃ _ hstatement hrecovered _ _ ihrest =>
      have hskip : s.pastSeparators.Advances s₂ :=
        hrecovered ▸ (Parser.Forward.advances_of_error _ hstatement).trans
          (s₁.advances_reported_recovered _ _ _)
      exact (Part.Lies.skipped hskip).cons ihrest s.advances_pastSeparators (.refl _) rfl rfl
        (by simp [Part.endsInToken])
  | statement _ ihform =>
      exact ihform.of_part (State.advances_begun _) (by simp) rfl (by simp [Part.endsInToken])
  | bare _ _ ihvalue => exact ihvalue.bare
  | assign _ _ _ _ ihtarget ihvalue => exact ihtarget.assign ihvalue
  | misassign _ _ _ _ _ ihtarget ihvalue => exact ihtarget.errorWrapping.assign (ihvalue.reported _)
  | functionDecl hwords hname _ _ ihparameters ihbody =>
      obtain ⟨hfile, hread⟩ := hwords.advanced
      have hparts := ihparameters.cons ihbody (.refl _) (.refl _) rfl rfl fun _ => rfl
      have hnamed := hparts.named (State.kind_ne_of_eq hname (by simp)) rfl
      exact hnamed.around hwords.advances hfile (hread.trans hnamed.advances) rfl rfl rfl
  | macroDecl _ hname _ _ ihparameters ihbody =>
      have hnamed := ihparameters.named (State.kind_ne_of_eq hname (by simp)) rfl
      exact hnamed.through_last ihbody (State.advances_advanced _) (.refl _) rfl rfl rfl
        (by simp [Part.endsInToken])
  | structDecl _ hname _ _ hclosing ihmembers => exact ihmembers.structDecl hname hclosing
  | @members seenMethod isMethod node rest s s₁ s₂ _ _ _ ihmember ihrest =>
      have hlater : (Part.members seenMethod).Lies last eof rest s₁ s₂ :=
        ihrest.of_part (.refl _) rfl rfl (by simp [Part.endsInToken])
      exact ihmember.cons hlater (State.advances_pastSeparators _) (.refl _) rfl rfl
        (by simp [Part.endsInToken])
  | method _ _ ih | earlyField _ ih =>
      exact ih.of_part (.refl _) rfl rfl (by simp [Part.endsInToken])
  | lateField _ _ ihfield =>
      exact (ihfield.of_part (.refl _) rfl rfl (by simp [Part.endsInToken])).errorWrapping.reported _
  | importPath hkind _ _ ihpath =>
      exact ihpath.around (State.advances_advanced _) (State.kind_ne_of_eq hkind (by simp))
        ihpath.advances rfl rfl rfl
  | @importAs path s s₁ hkind _ _ hname ihpath =>
      have halias : Part.name.Lies last eof [s₁.advanced.leaf .identifier] s₁.advanced _ :=
        .leaf _ rfl (State.kind_ne_of_eq hname (by simp))
      have hnodes := ihpath.cons halias (.refl _) s₁.advances_advanced rfl rfl fun _ => rfl
      exact hnodes.around s.advances_advanced (State.kind_ne_of_eq hkind (by simp)) hnodes.advances
        rfl rfl rfl
  | importNames hkind _ _ _ _ ihnames ihpath =>
      have hnodes := ihnames.append ihpath (.refl _) (State.advances_advanced _) rfl rfl fun _ => rfl
      exact hnodes.around (State.advances_advanced _) (State.kind_ne_of_eq hkind (by simp))
        hnodes.advances rfl rfl rfl
  | knownPath hkind _ _ _ ihparts =>
      exact ihparts.around (State.advances_advanced_twice _) (State.kind_ne_of_eq hkind (by simp))
        ((State.advances_advanced _).trans ihparts.advances) rfl rfl rfl
  | unknownPath hkind _ _ _ _ ihparts =>
      have hread := (State.advances_advanced _).trans ihparts.advances
      exact (ihparts.around (State.advances_advanced_twice _) (State.kind_ne_of_eq hkind (by simp)) hread
        rfl rfl rfl).errorWrapping.reported _
  | segments hkind _ ihrest =>
      exact (ihrest.named (State.kind_ne_of_eq hkind (by simp)) rfl).of_part (.refl _) rfl rfl fun _ => rfl
  | moreSegments _ hname _ ihrest =>
      exact (ihrest.named (State.kind_ne_of_eq hname (by simp)) rfl).of_part
        (State.advances_advanced _) rfl rfl fun _ => rfl
  | ifStmt hkind _ _ _ ihcondition ihbody ihclauses =>
      have hnodes := (ihcondition.before_block ihbody rfl).append ihclauses (.refl _) (.refl _) rfl rfl
        fun _ => rfl
      exact hnodes.around (State.advances_advanced _) (State.kind_ne_of_eq hkind (by simp))
        hnodes.advances rfl rfl rfl
  | clauses _ _ _ ihnode ihrest =>
      exact ihnode.cons (ihrest.of_part (.refl _) rfl rfl fun _ => rfl) (State.advances_pastNewlines _)
        (.refl _) rfl rfl fun _ => rfl
  | lateClause _ _ _ _ ihnode ihrest =>
      exact ihnode.errorWrapping.cons ihrest (State.advances_pastNewlines _)
        (State.advances_reported _ _) rfl rfl fun _ => rfl

/-! ### Whole sources -/

theorem parse_orderly (source : String) (options : Options) :
    (parse source options).root.Every (Node.Orderly (lastTokenEnd source) source.utf8ByteSize) := by
  obtain ⟨body, s', hroot, -, hreads, hrest⟩ := parse_reads source options
  have hbounded := bounded_ofSource source options
  have hend := hbounded.advances hreads.advances
  have hplaced := hreads.lies.nodes 0 hbounded (Nat.zero_le _)
  have hplace : s'.place = source.utf8ByteSize := by
    rw [← hend.eof]
    simp [State.place, State.current, State.slot, hrest, Token.endOfFile, Span.empty]
  have hsize : (Position.origin.advancedBy source.toList).offset = source.utf8ByteSize := by
    rw [Text.advancedBy_offset, Text.byteLength_toList]
    simp [Position.origin]
  rw [hroot]
  refine Node.every_iff.mpr ⟨⟨fun n hn => ⟨Nat.zero_le _, .inl ?_⟩,
    fun n hn => (hplaced n hn).1.ordered, hreads.lies.inOrder hbounded⟩, fun n hn => (hplaced n hn).1.below⟩
  have hstop := (hplaced n hn).1.stop_le hend
  change n.span.stop.offset ≤ (Position.origin.advancedBy source.toList).offset
  omega

theorem parse_ordered (source : String) (options : Options) :
    (parse source options).root.Every fun n => n.span.start.offset ≤ n.span.stop.offset := by
  have horderly := parse_orderly source options
  refine Node.Every.of_children ?_ (horderly.mono fun _ h => h.ordered)
  obtain ⟨body, s', hroot, -⟩ := parse_reads source options
  rw [hroot]
  exact Nat.zero_le _

/-- A part of a node lies inside of it, except for a gap at the end of a block that the file ends in: the
node of such a block stops at the last token, and the gap stands behind the blanks at the end. -/
theorem contains_child_iff (source : String) (options : Options) :
    ∀ n ∈ (parse source options).root.preorder, ∀ child ∈ n.children,
      n.span.contains child.span = false ↔
        n.kind = .errorNode ∧ n.span.stop.offset = lastTokenEnd source ∧
          child.span.stop.offset = source.utf8ByteSize ∧
          lastTokenEnd source < source.utf8ByteSize := by
  intro n hn child hchild
  obtain ⟨hstart, hstop⟩ := (parse_orderly source options n hn).inside child hchild
  simp only [Span.contains, hstart, decide_true, Bool.true_and, decide_eq_false_iff_not]
  constructor
  · intro hoff
    rcases hstop with hinside | ⟨hkind, hlast, heof⟩
    · exact absurd hinside hoff
    · exact ⟨hkind, hlast, heof, by omega⟩
  · rintro ⟨-, hlast, heof, hlt⟩
    omega

/-- The gap behind the sum lies outside of the open block that the sum is in. -/
theorem exists_child_outside :
    ∃ n ∈ (parse "if x \x7b a + " {}).root.preorder, ∃ child ∈ n.children,
      n.span.contains child.span = false := by
  decide +kernel

theorem exists_child_at_end :
    ∃ n ∈ (parse "for x \x7b a + " {}).root.preorder, ∃ child ∈ n.children,
      n.span.stop.offset = lastTokenEnd "for x \x7b a + " ∧
        child.span.stop.offset = "for x \x7b a + ".utf8ByteSize := by
  have houtside : ∃ n ∈ (parse "for x \x7b a + " {}).root.preorder, ∃ child ∈ n.children,
      n.span.contains child.span = false := by
    decide +kernel
  obtain ⟨n, hn, child, hchild, hoff⟩ := houtside
  obtain ⟨-, hlast, heof, -⟩ := (contains_child_iff "for x \x7b a + " {} n hn child hchild).mp hoff
  exact ⟨n, hn, child, hchild, hlast, heof⟩

/-- No node of a tree ends before it begins or behind the end of the source, and each child of a node ends
before the next one begins. -/
theorem parse_in_order (source : String) (options : Options) :
    ∀ n ∈ (parse source options).root.preorder,
      n.span.start.offset ≤ n.span.stop.offset ∧ n.span.stop.offset ≤ source.utf8ByteSize ∧
        n.children.Pairwise fun a b => a.span.stop.offset ≤ b.span.start.offset := by
  obtain ⟨hplaces, -⟩ := parse_in source options
  intro n hn
  refine ⟨parse_ordered source options n hn, ?_, (parse_orderly source options n hn).inOrder⟩
  rw [← Text.byteLength_toList]
  exact (hplaces n hn).stop.offset_le

/-- The clauses of an `if` are in order, also one that stands behind the last one and is wrapped. -/
theorem late_clause_in_order :
    ∃ n ∈ (parse "if a \x7b\x7d else \x7b\x7d\nelif b \x7b x = " {}).root.preorder,
      n.children.map (·.kind) = [.identifier, .block, .elseClause, .errorNode] ∧
        n.children.Pairwise fun a b => a.span.stop.offset ≤ b.span.start.offset := by
  have hfound : ∃ n ∈ (parse "if a \x7b\x7d else \x7b\x7d\nelif b \x7b x = " {}).root.preorder,
      n.children.map (·.kind) = [.identifier, .block, .elseClause, .errorNode] := by decide +kernel
  obtain ⟨n, hn, hkinds⟩ := hfound
  obtain ⟨-, -, horder⟩ := parse_in_order _ {} n hn
  exact ⟨n, hn, hkinds, horder⟩

end ScriptSyntax
