import ScriptSyntax.Proofs.Parsing.Origin
import ScriptSyntax.Proofs.Parsing.Spans
import ScriptSyntax.Proofs.Token.Stored
import ScriptSyntax.Tree.Query

/-!
Positions and the texts they cut out.  Every position of a parse is the one that is reached by advancing over the
source up to its offset, so each node has a text, and what a node keeps of a single token is that text.
-/

namespace ScriptSyntax

/-- The position falls between two characters of the source, and it is the one that advancing over what comes
before it gives. -/
structure Position.Locates (source : String) (p : Position) : Prop where
  le : p.offset ≤ source.utf8ByteSize
  boundary : Text.isBoundary source.toList p.offset
  counts : ∃ before, Text.slice? source.toList 0 p.offset = .ok before ∧ origin.advancedBy? before = .ok p

theorem Position.In.locates {source : String} {p : Position} (h : p.In source.toList)
    (hsize : source.utf8ByteSize < limit) : p.Locates source := by
  have hle := h.offset_le
  rw [Text.byteLength_toList] at hle
  obtain ⟨before, behind, htext, hp⟩ := h
  have hoffset : Text.byteLength before = p.offset := by
    rw [hp, Text.advancedBy_offset]
    exact (Nat.zero_add _).symm
  refine ⟨hle, ?_, before, ?_, ?_⟩
  · have hsplit : Text.splitAtByte? source.toList p.offset = .ok (before, behind) :=
      Text.splitAtByte?_eq_ok_iff.mpr ⟨htext, hoffset⟩
    rw [Text.isBoundary, hsplit]
    rfl
  · have hslice := Text.slice?_append [] before behind
    rwa [List.nil_append, ← htext, Text.byteLength_nil, Nat.zero_add, hoffset] at hslice
  · rw [hp]
    apply reached_origin.advancedBy?_eq
    rw [← hp]
    exact Nat.lt_of_le_of_lt hle hsize

namespace Text

theorem exists_slice {text : List Char} {p q : Position} (hp : p.In text) (hq : q.In text)
    (hle : p.offset ≤ q.offset) : ∃ piece, slice? text p.offset q.offset = .ok piece := by
  obtain ⟨first, later, htext, rfl⟩ := hp
  obtain ⟨before, behind, hsame, rfl⟩ := hq
  simp only [advancedBy_offset, Position.origin, Nat.zero_add] at hle ⊢
  obtain ⟨piece, rfl⟩ := prefix_of_byteLength_le ⟨later, htext.symm⟩ ⟨behind, hsame.symm⟩ hle
  refine ⟨piece, ?_⟩
  rw [hsame, List.append_assoc, byteLength_append]
  exact slice?_append first piece behind

end Text

/-! ### Nodes of a single token -/

/-- A node of the kind is a single token, and keeps its text. -/
def NodeKind.isToken : NodeKind → Bool
  | .identifier | .numberLit | .stringLit | .boolLit => true
  | _ => false

theorem Origin.exists_leaf {first : State} {n : Node} (h : Origin first n) (hkind : n.kind.isToken) :
    ∃ s kind, first.Within s ∧ s.kind ≠ .endOfFile ∧ n = s.leaf kind := by
  cases h with
  | name hs hname => exact ⟨_, _, hs, State.kind_ne_of_eq hname nofun, rfl⟩
  | string hs hstring => exact ⟨_, _, hs, State.kind_ne_of_eq hstring nofun, rfl⟩
  | path => cases hkind
  | gap => cases hkind
  | wrapping => cases hkind
  | @made part _ s s' hs _ hmakes hreads =>
      cases hreads with
      | literal hliteral =>
          refine ⟨s, _, hs, ?_, rfl⟩
          intro hend
          rw [hend] at hliteral
          cases hliteral
      | name hname => exact ⟨s, _, hs, State.kind_ne_of_eq hname nofun, rfl⟩
      | @operation _ _ _ form => cases form <;> cases hkind
      | assign _ hassignment | misassign _ hassignment =>
          obtain ⟨-, rfl⟩ | ⟨-, rfl⟩ | ⟨-, rfl⟩ := Parser.assignmentKind?_cases hassignment
          all_goals cases hkind
      | _ => first | (cases hmakes; done) | cases hkind

theorem State.Within.current_mem {source : String} {options : Options} {s : State}
    (h : (State.ofSource source options).Within s) (hkind : s.kind ≠ .endOfFile) :
    s.current ∈ tokenize source := by
  obtain ⟨passed, hrest, -⟩ := h.passes
  obtain ⟨slot, slots, hslots⟩ := exists_rest_eq_cons hkind
  rw [rest_ofSource, hslots] at hrest
  obtain ⟨before, behind, htokens, -⟩ := Slot.exists_of_significant hrest
  rw [tokenize, Scan.tokens_eq, htokens, State.current, slot_of_cons hslots]
  exact List.mem_append_left _ (List.mem_append_right _ List.mem_cons_self)

theorem Node.text?_leaf {source : String} {options : Options} {s : State}
    (h : (State.ofSource source options).Within s) (hkind : s.kind ≠ .endOfFile)
    (hsize : source.utf8ByteSize < Position.limit) (kind : NodeKind) :
    (s.leaf kind).text? source = .ok s.current.text := by
  have hstored := stored_of_mem_tokenize hsize (h.current_mem hkind)
  show (Text.slice? source.toList s.current.span.start.offset s.current.span.stop.offset).map _ = _
  rw [hstored.slice]
  exact congrArg Except.ok String.ofList_toList

/-! ### The places of a parse -/

/-- Every place of a tree and of a diagnostic is the position that its offset has in the source, every node has a
text, and the text of a name, a number, a string or a boolean is the literal that the node keeps. -/
theorem parse_located {source : String} (options : Options) (hsize : source.utf8ByteSize < Position.limit) :
    (∀ n ∈ (parse source options).root.preorder,
      n.span.start.Locates source ∧ n.span.stop.Locates source) ∧
    (∀ d ∈ (parse source options).diagnostics,
      d.span.start.Locates source ∧ d.span.stop.Locates source) ∧
    ∀ n ∈ (parse source options).root.preorder, ∃ text, n.text? source = .ok text ∧
      (n.kind.isToken → n.literal = some text) := by
  obtain ⟨hnodes, hdiagnostics⟩ := parse_in source options
  refine ⟨?_, ?_, ?_⟩
  · intro n hn
    exact ⟨(hnodes n hn).start.locates hsize, (hnodes n hn).stop.locates hsize⟩
  · intro d hd
    exact ⟨(hdiagnostics d hd).start.locates hsize, (hdiagnostics d hd).stop.locates hsize⟩
  · intro n hn
    obtain ⟨body, s', hroot, -, hreads, -⟩ := parse_reads source options
    have hbelow := hreads.every_origin (State.regular_ofSource source options).within trivial nofun
    obtain ⟨piece, hpiece⟩ := Text.exists_slice (hnodes n hn).start (hnodes n hn).stop
      (parse_ordered source options n hn)
    have htext : n.text? source = .ok (String.ofList piece) := by
      rw [Node.text?, hpiece]
      rfl
    refine ⟨_, htext, fun htoken => ?_⟩
    rw [hroot] at hn
    rcases Node.mem_preorder.mp hn with rfl | ⟨child, hchild, hn⟩
    · cases htoken
    · obtain ⟨s, kind, hs, hkind, rfl⟩ := (hbelow child hchild n hn).exists_leaf htoken
      rw [Node.text?_leaf hs hkind hsize] at htext
      exact congrArg some (Except.ok.inj htext)

theorem locates_wide_characters :
    "a = \"日本\" +\n".utf8ByteSize < Position.limit ∧ (parse "a = \"日本\" +\n" {}).hasErrors ∧
      (∀ d ∈ (parse "a = \"日本\" +\n" {}).diagnostics,
        d.span.start.Locates "a = \"日本\" +\n" ∧ d.span.stop.Locates "a = \"日本\" +\n") ∧
      ∀ n ∈ (parse "a = \"日本\" +\n" {}).root.preorder, ∃ text,
        n.text? "a = \"日本\" +\n" = .ok text ∧ (n.kind.isToken → n.literal = some text) := by
  have hsize : "a = \"日本\" +\n".utf8ByteSize < Position.limit := by decide
  obtain ⟨-, hdiagnostics, htexts⟩ := parse_located {} hsize
  exact ⟨hsize, by decide +kernel, hdiagnostics, htexts⟩

end ScriptSyntax
