import ScriptSyntax.Proofs.Parsing.Shape
import ScriptSyntax.Proofs.Text.Delimited
import ScriptSyntax.Proofs.Tree.Nested
import ScriptSyntax.Tree.Sexp

/-!
The open form of a tree tells the tree, for the trees that a parse gives.  Literals stand there as they are, so
this rests on what a parse lets a literal be: a string shows by its quotes where it ends, and any other literal
has no blank and no parenthesis in it, `literalLength_append`.
-/

namespace ScriptSyntax

namespace Scan

/-- A character that is neither between two parts of the open form of a tree nor around one. -/
def isPlain (c : Char) : Bool := c ≠ ' ' && c ≠ '(' && c ≠ ')'

theorem isPlain_of {p : Char → Bool} {c : Char} (hc : p c) (hblank : p ' ' = false) (hopen : p '(' = false)
    (hclose : p ')' = false) : isPlain c := by
  have hne (d : Char) (hd : p d = false) : c ≠ d := by
    rintro rfl
    rw [hd] at hc
    cases hc
  simp [isPlain, hne _ hblank, hne _ hopen, hne _ hclose]

theorem fractionLength_plain (text : List Char) :
    ∀ c ∈ text.take (fractionLength text), isPlain c := by
  unfold fractionLength
  split
  · rename_i rest
    split
    · simp
    · rename_i digits hdigits
      rw [List.take_succ_cons, ← Nat.succ_eq_add_one, ← hdigits, take_runLength]
      refine List.forall_mem_cons.mpr ⟨by decide, fun c hc => ?_⟩
      exact isPlain_of (List.mem_takeWhile_imp hc) (by decide) (by decide) (by decide)
  · simp

theorem numberLength_plain (text : List Char) : ∀ c ∈ text.take (numberLength text), isPlain c := by
  intro c hc
  rw [numberLength, List.take_add, take_runLength] at hc
  rcases List.mem_append.mp hc with hdigit | hfraction
  · exact isPlain_of (List.mem_takeWhile_imp hdigit) (by decide) (by decide) (by decide)
  · exact fractionLength_plain _ c hfraction

theorem letter_or_digit_of_kind {c : Char} {rest : List Char} :
    (classify c rest).1 ∈ [TokenKind.identifier, .number, .boolean] →
      (c.isAlpha ∧ (classify c rest).2 = runLength isWordTail rest) ∨
        (c.isDigit ∧ (classify c rest).2 = numberLength rest) := by
  unfold classify
  split
  · simp
  split
  · simp
  split
  · simp
  split
  · rename_i halpha
    exact fun _ => .inl ⟨halpha, rfl⟩
  split
  · rename_i hdigit
    exact fun _ => .inr ⟨hdigit, rfl⟩
  split
  · rcases kind_string c rest with hstring | hstring
    · simp [hstring]
    · simp [hstring]
  · intro hkind
    have hkinds : ∀ kind ∈ symbolKinds, kind ∉ [TokenKind.identifier, .number, .boolean] := by decide
    exact absurd hkind (hkinds _ (kind_mem_symbolKinds c rest))

theorem classify_string_append {c : Char} {text : List Char} {n : Nat}
    (h : classify c text = (.string, n)) (after : List Char) :
    classify c (text ++ after) = (.string, n) := by
  have hkind : (classify c text).1 = .string := congrArg Prod.fst h
  have hsymbol : (symbol c text).1 ≠ .string := by
    have hkinds : ∀ kind ∈ symbolKinds, kind ≠ .string := by decide
    exact hkinds _ (kind_mem_symbolKinds c text)
  cases begins c with
  | spacing hread | newline hread | number hread =>
      rw [hread] at hkind
      cases hkind
  | slash hread =>
      rw [hread] at hkind
      split at hkind
      · cases hkind
      · exact absurd hkind hsymbol
  | word hread =>
      rw [hread] at hkind
      have hkinds : ∀ kind ∈ wordKinds, kind ≠ .string := by decide
      exact absurd hkind (hkinds _ (wordKind_mem_wordKinds _))
  | string hescape hread =>
      rw [hread] at h hkind ⊢
      rw [string_append hescape hkind, h]
  | symbol hread =>
      rw [hread] at hkind
      exact absurd hkind hsymbol

end Scan

/-- The text has characters, and none that the open form puts between two parts of a tree or around one. -/
def IsPlainText (text : String) : Prop :=
  text.toList ≠ [] ∧ text.toList.all Scan.isPlain

instance (text : String) : Decidable (IsPlainText text) :=
  inferInstanceAs (Decidable (text.toList ≠ [] ∧ text.toList.all Scan.isPlain))

theorem TokenKind.Writes.isPlainText {kind : TokenKind} {text : String} (h : kind.Writes text)
    (hkind : kind ∈ [identifier, number, boolean]) : IsPlainText text := by
  obtain ⟨c, rest, hchars, hread⟩ := h
  obtain ⟨rfl, hlength⟩ := Prod.ext_iff.mp hread
  rw [IsPlainText, hchars, List.all_eq_true]
  refine ⟨List.cons_ne_nil c rest, List.forall_mem_cons.mpr ?_⟩
  rcases Scan.letter_or_digit_of_kind hkind with ⟨halpha, hrun⟩ | ⟨hdigit, hrun⟩
  · have htail := Scan.take_runLength Scan.isWordTail rest
    rw [← hrun, hlength, List.take_length] at htail
    refine ⟨Scan.isPlain_of halpha (by decide) (by decide) (by decide), fun d hd => ?_⟩
    rw [htail] at hd
    exact Scan.isPlain_of (List.mem_takeWhile_imp hd) (by decide) (by decide) (by decide)
  · have htail := Scan.numberLength_plain rest
    rw [← hrun, hlength, List.take_length] at htail
    exact ⟨Scan.isPlain_of hdigit (by decide) (by decide) (by decide), htail⟩

namespace Node

/-- How nodes are written in the open form. -/
def openForm : TreeForm where
  head _ n := '(' :: n.kind.name.toList ++ spaced n.literal
  gap := ' '

theorem openForm_appends :
    openForm.Appends (fun _ out n => writeSexp out n) (fun _ out nodes => writeSexpList out nodes) where
  node depth out n := by
    obtain ⟨kind, children, span, literal⟩ := n
    cases literal with
    | none =>
        refine ⟨out ++ "(" ++ kind.name, ?_, by rw [writeSexp]⟩
        simp [openForm, spaced]
    | some text =>
        refine ⟨out ++ "(" ++ kind.name ++ " " ++ text, ?_, by rw [writeSexp]⟩
        simp [openForm, spaced]
  nil _ out := by rw [writeSexpList]
  cons _ out n nodes := by
    rw [writeSexpList]
    rfl

theorem toList_sexp (n : Node) : n.sexp.toList = openForm.write 0 n :=
  openForm_appends.toList_append n 0 ""

/-- The characters that a literal takes behind the name of a kind, with the blank before it: a string as a
script has it, any other literal up to a blank or a parenthesis. -/
def literalLength (kind : NodeKind) : List Char → Nat
  | ' ' :: c :: rest =>
      if kind = .stringLit then (Scan.classify c rest).2 + 2
      else
        match Scan.runLength Scan.isPlain (c :: rest) with
        | 0 => 0
        | count + 1 => count + 2
  | _ => 0

theorem HasLiteral.string_or_plain {n : Node} (h : n.HasLiteral) :
    (n.kind = .stringLit ∧ ∃ text, n.literal = some text ∧ TokenKind.string.Writes text) ∨
      n.kind ≠ .stringLit ∧ ∀ text ∈ n.literal, IsPlainText text := by
  obtain ⟨kind, children, span, literal⟩ := n
  cases kind with
  | stringLit => exact .inl ⟨rfl, h⟩
  | identifier | importPath | numberLit | boolLit =>
      obtain ⟨text, rfl, htext⟩ := h
      refine .inr ⟨nofun, fun text' hmem => ?_⟩
      obtain rfl : text = text' := Option.mem_some.mp hmem
      exact htext.isPlainText (by decide)
  | binaryExpr =>
      obtain ⟨operator, hmem, rfl⟩ := h
      have hall : ∀ operator ∈ binaryOperators, ∀ text ∈ some operator, IsPlainText text := by decide +kernel
      exact .inr ⟨nofun, hall operator hmem⟩
  | compoundAssign =>
      obtain ⟨operator, hmem, rfl⟩ := h
      have hall : ∀ operator ∈ compoundOperators, ∀ text ∈ some operator, IsPlainText text := by decide +kernel
      exact .inr ⟨nofun, hall operator hmem⟩
  | functionDecl =>
      obtain rfl | rfl := h
      · exact .inr ⟨nofun, nofun⟩
      · exact .inr ⟨nofun, by rintro text ⟨⟩; decide +kernel⟩
  | unaryBang | macroCall =>
      obtain rfl | rfl := h
      all_goals exact .inr ⟨nofun, by rintro text ⟨⟩; decide +kernel⟩
  | _ =>
      obtain rfl := h
      exact .inr ⟨nofun, nofun⟩

theorem literalLength_append {n : Node} (hn : n.HasLiteral) {x : List Char} (hx : openForm.Follows x) :
    literalLength n.kind (spaced n.literal ++ x) = (spaced n.literal).length := by
  rcases hn.string_or_plain with ⟨hkind, text, hliteral, c, rest, hchars, hread⟩ | ⟨hkind, hplain⟩
  · rw [hkind, hliteral, spaced, hchars, List.cons_append, List.cons_append, literalLength, if_pos rfl,
      Scan.classify_string_append hread]
    simp
  · have hstop : ∀ c ∈ x.head?, Scan.isPlain c = false := hx.head_eq_false (by decide) (by decide)
    cases hliteral : n.literal with
    | none =>
        rw [spaced, List.nil_append]
        obtain ⟨rest, rfl⟩ | ⟨depth, m, rest, rfl⟩ := hx
        · rfl
        · -- a blank alone does not say that there is a literal: a tree below the node has one before it too
          show literalLength n.kind (' ' :: '(' :: _) = _
          rw [literalLength, if_neg hkind]
          rfl
    | some text =>
        obtain ⟨hsome, hall⟩ := hplain text hliteral
        rw [List.all_eq_true] at hall
        rw [spaced]
        cases hchars : text.toList with
        | nil => exact absurd hchars hsome
        | cons c rest =>
            rw [hchars] at hall
            have hlength : Scan.runLength Scan.isPlain (c :: (rest ++ x)) = rest.length + 1 := by
              rw [Scan.runLength, ← List.cons_append, Text.takeWhile_append_of_all hall hstop,
                List.length_cons]
            rw [List.cons_append, List.cons_append, literalLength, if_neg hkind, hlength]
            rfl

theorem openForm_tells : openForm.Tells HasLiteral fun _ => default where
  gap_ne := by decide
  head_mapPositions depth n := by
    cases n
    rw [mapPositions_mk]
    rfl
  head_inj := by
    intro depth n m x y hn hm hx hy h
    simp only [openForm, List.cons_append, List.append_assoc] at h
    have hbreak (literal : Option String) {z : List Char} (hz : openForm.Follows z) :
        ∀ c ∈ (spaced literal ++ z).head?, Scan.isWordTail c = false := by
      cases literal with
      | none => exact hz.head_eq_false (by decide) (by decide)
      | some text =>
          rintro c ⟨⟩
          rfl
    obtain ⟨hname, hrest⟩ := Text.append_inj_of_all n.kind.isWordTail_of_mem_name
      m.kind.isWordTail_of_mem_name (hbreak n.literal hx) (hbreak m.literal hy) (List.cons.inj h).2
    have hkind : n.kind = m.kind := NodeKind.name_injective (String.toList_inj.mp hname)
    have hlength : (spaced n.literal).length = (spaced m.literal).length := by
      rw [← literalLength_append hn hx, hrest, hkind, literalLength_append hm hy]
    obtain ⟨hliteral, hbehind⟩ := List.append_inj hrest hlength
    exact ⟨hkind, spaced_injective hliteral, rfl, hbehind⟩

theorem bare_eq_mapPositions (n : Node) : n.bare = n.mapPositions fun _ => default := by
  induction n with
  | node kind children span literal ih =>
      rw [bare_mk, mapPositions_mk, List.map_congr_left ih]
      rfl

theorem sexp_inj {n m : Node} (hn : n.Every HasLiteral) (hm : m.Every HasLiteral) :
    n.sexp = m.sexp ↔ n.bare = m.bare := by
  rw [← String.toList_inj, toList_sexp, toList_sexp, openForm_tells.write_inj hn hm, bare_eq_mapPositions,
    bare_eq_mapPositions]

end Node

/-- The open forms of the trees of two sources are the same exactly if the trees are, but for their places. -/
theorem parse_sexp_inj (first second : String) (options options' : Options) :
    (parse first options).root.sexp = (parse second options').root.sexp ↔
      (parse first options).root.bare = (parse second options').root.bare :=
  Node.sexp_inj ((every_shaped first options).mono fun _ hn => hn.literal)
    ((every_shaped second options').mono fun _ hn => hn.literal)

/-- Other trees can share their open form. -/
example :
    (⟨.identifier, [.branch .block default []], default, some "a"⟩ : Node).sexp =
      (⟨.identifier, [], default, some "a (block)"⟩ : Node).sexp := by decide

end ScriptSyntax
