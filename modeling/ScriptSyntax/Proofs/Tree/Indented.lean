import ScriptSyntax.Proofs.Text.Delimited
import ScriptSyntax.Proofs.Tree.Nested
import ScriptSyntax.Tree.Sexp

/-!
The indented form of a tree tells the tree, whatever its literals are: a literal stands there in quotes.  Only
offsets are left out of it.  It has a line for each node, in pre-order: `indentedSexp_spec`.
-/

namespace ScriptSyntax

/-- What a display tells of a position: all but its offset. -/
def Position.shown (p : Position) : Position := { p with offset := 0 }

theorem Position.newline_not_mem_display (p : Position) : '\n' ∉ p.display.toList := by
  have hdigits (n : Nat) : '\n' ∉ Nat.toDigits 10 n := fun hmem => by
    cases Nat.isDigit_of_mem_toDigits (by decide) (by decide) hmem
  simp [display, hdigits]

namespace Node

variable {x y : List Char}

/-- A literal as it stands in the indented form, with the blank before it. -/
def spacedQuoted (literal : Option String) : List Char :=
  spaced (literal.map Text.quoted)

/-- What the line of a node shows of it behind the parenthesis that opens it. -/
def details (n : Node) : List Char :=
  n.kind.name.toList ++ (" [".toList ++ (n.span.start.display.toList ++ (" - ".toList ++
    (n.span.stop.display.toList ++ ("]".toList ++ spacedQuoted n.literal)))))

/-- How nodes are written in the indented form. -/
def indentedForm : TreeForm where
  head depth n := (indentation depth).toList ++ '(' :: n.details
  gap := '\n'

theorem indentedForm_appends : indentedForm.Appends writeIndented writeIndentedList where
  node depth out n := by
    obtain ⟨kind, children, span, literal⟩ := n
    cases literal with
    | none =>
        refine ⟨out ++ indentation depth ++ "(" ++ kind.name ++ " [" ++ span.start.display ++ " - " ++
          span.stop.display ++ "]", ?_, by rw [writeIndented]⟩
        simp [indentedForm, details, spacedQuoted, spaced]
    | some text =>
        refine ⟨out ++ indentation depth ++ "(" ++ kind.name ++ " [" ++ span.start.display ++ " - " ++
          span.stop.display ++ "]" ++ " " ++ Text.quoted text, ?_, by rw [writeIndented]⟩
        simp [indentedForm, details, spacedQuoted, spaced]
  nil depth out := by rw [writeIndentedList]
  cons depth out n nodes := by
    rw [writeIndentedList]
    rfl

theorem toList_indentedSexp (n : Node) : n.indentedSexp.toList = indentedForm.write 0 n ++ ['\n'] := by
  rw [indentedSexp, String.toList_append, indentedForm_appends.toList_append n 0]
  rfl

/-! ### The tree from its indented form -/

theorem spacedQuoted_append_inj {first second : Option String} (hx : indentedForm.Follows x)
    (hy : indentedForm.Follows y) (h : spacedQuoted first ++ x = spacedQuoted second ++ y) :
    first = second ∧ x = y := by
  have hblank {z : List Char} (hz : indentedForm.Follows z) (text : List Char) : z ≠ ' ' :: text := by
    rintro rfl
    have hbreak := hz.head_eq_false (p := (· = ' ')) (by decide) (by decide) ' ' rfl
    cases hbreak
  cases first with
  | none =>
      cases second with
      | none => exact ⟨rfl, h⟩
      | some text => exact absurd h (hblank hx _)
  | some text =>
      cases second with
      | none => exact absurd h.symm (hblank hy _)
      | some text' =>
          obtain ⟨rfl, hbehind⟩ := Text.quoted_append_inj (List.cons.inj h).2
          exact ⟨rfl, hbehind⟩

theorem details_append_inj {n m : Node} (hx : indentedForm.Follows x) (hy : indentedForm.Follows y)
    (h : n.details ++ x = m.details ++ y) :
    n.kind = m.kind ∧ n.literal = m.literal ∧
      n.span.mapPositions Position.shown = m.span.mapPositions Position.shown ∧ x = y := by
  simp only [details, List.append_assoc] at h
  obtain ⟨hname, hrest⟩ := Text.append_inj_of_all n.kind.isWordTail_of_mem_name
    m.kind.isWordTail_of_mem_name (by rintro c ⟨⟩; rfl) (by rintro c ⟨⟩; rfl) h
  obtain ⟨hstartLine, hstartColumn, hrest⟩ := Position.display_append_inj (by rintro c ⟨⟩; rfl)
    (by rintro c ⟨⟩; rfl) (List.append_cancel_left hrest)
  obtain ⟨hstopLine, hstopColumn, hrest⟩ := Position.display_append_inj (by rintro c ⟨⟩; rfl)
    (by rintro c ⟨⟩; rfl) (List.append_cancel_left hrest)
  obtain ⟨hliteral, hbehind⟩ := spacedQuoted_append_inj hx hy (List.append_cancel_left hrest)
  refine ⟨NodeKind.name_injective (String.toList_inj.mp hname), hliteral, ?_, hbehind⟩
  simp only [Span.mapPositions, Position.shown, hstartLine, hstartColumn, hstopLine, hstopColumn]

theorem indentedForm_tells : indentedForm.Tells (fun _ => True) Position.shown where
  gap_ne := by decide
  head_mapPositions depth n := by
    cases n
    rw [mapPositions_mk]
    rfl
  head_inj := by
    intro depth n m x y _ _ hx hy h
    simp only [indentedForm, List.append_assoc, List.append_cancel_left_eq] at h
    exact details_append_inj hx hy (List.cons.inj h).2

/-! ### The lines of an indented form -/

/-- The line is that of a node as many levels deep: it begins with the node's head, and it ends with the
parentheses that close the node, and nodes above it, if no node below it comes next. -/
def ShowsNode (line : String) (place : Nat × Node) : Prop :=
  ∃ count, line.toList = indentedForm.head place.1 place.2 ++ List.replicate count ')'

/-- The text is on lines that show the nodes, one for each, with a newline before each line. -/
def OnLines (text : List Char) (nodes : List (Nat × Node)) : Prop :=
  ∃ lines : List String, text = lines.flatMap ('\n' :: ·.toList) ∧ List.Forall₂ ShowsNode lines nodes

theorem OnLines.append {text text' : List Char} {nodes nodes' : List (Nat × Node)}
    (h : OnLines text nodes) (h' : OnLines text' nodes') : OnLines (text ++ text') (nodes ++ nodes') := by
  obtain ⟨lines, rfl, hshows⟩ := h
  obtain ⟨lines', rfl, hshows'⟩ := h'
  exact ⟨lines ++ lines', List.flatMap_append.symm, List.rel_append hshows hshows'⟩

theorem onLines_head (depth : Nat) (n : Node) (count : Nat) :
    OnLines ('\n' :: (indentedForm.head depth n ++ List.replicate count ')')) [(depth, n)] := by
  refine ⟨[String.ofList (indentedForm.head depth n ++ List.replicate count ')')], ?_, ?_⟩
  · simp
  · exact .cons ⟨count, String.toList_ofList⟩ .nil

theorem onLines_writeList {nodes : List Node} (hsome : nodes ≠ [])
    (hnodes : ∀ n ∈ nodes, ∀ depth count, OnLines
      ('\n' :: (indentedForm.write depth n ++ List.replicate count ')')) (outlineFrom depth n))
    (depth count : Nat) :
    OnLines (indentedForm.writeList depth nodes ++ List.replicate count ')') (outlineList depth nodes) := by
  induction nodes with
  | nil => exact absurd rfl hsome
  | cons n nodes ih =>
      obtain ⟨hn, hlater⟩ := List.forall_mem_cons.mp hnodes
      rw [TreeForm.writeList_cons, outlineList, List.append_assoc]
      cases nodes with
      | nil =>
          rw [TreeForm.writeList_nil, outlineList, List.append_nil, List.nil_append]
          exact hn depth count
      | cons m nodes =>
          have hfirst := hn depth 0
          rw [List.replicate_zero, List.append_nil] at hfirst
          exact hfirst.append (ih (List.cons_ne_nil m nodes) hlater)

theorem onLines_write (n : Node) : ∀ depth count, OnLines
    ('\n' :: (indentedForm.write depth n ++ List.replicate count ')')) (outlineFrom depth n) := by
  induction n with
  | node kind children span literal ih =>
      intro depth count
      rw [TreeForm.write_eq, outlineFrom, List.append_assoc, List.append_assoc, List.singleton_append,
        ← List.replicate_succ]
      cases children with
      | nil =>
          rw [TreeForm.writeList_nil, outlineList, List.nil_append]
          exact onLines_head depth _ (count + 1)
      | cons child children =>
          have hhead := onLines_head depth ⟨kind, child :: children, span, literal⟩ 0
          rw [List.replicate_zero, List.append_nil] at hhead
          exact hhead.append (onLines_writeList (List.cons_ne_nil child children) ih (depth + 1) (count + 1))

theorem newline_not_mem_head (depth : Nat) (n : Node) : '\n' ∉ indentedForm.head depth n := by
  have hname : '\n' ∉ n.kind.name.toList := fun hmem => by
    cases n.kind.isWordTail_of_mem_name _ hmem
  have hliteral : '\n' ∉ spacedQuoted n.literal := by
    cases n.literal with
    | none => exact List.not_mem_nil
    | some text => simp [spacedQuoted, spaced, Text.newline_not_mem_quoted]
  simp [indentedForm, details, indentation, Text.toList_pushn, hname, hliteral,
    Position.newline_not_mem_display]

theorem ShowsNode.newline_not_mem {line : String} {place : Nat × Node} (h : ShowsNode line place) :
    '\n' ∉ line.toList := by
  obtain ⟨count, hline⟩ := h
  simp [hline, newline_not_mem_head]

theorem toList_join_lines (lines : List String) :
    '\n' :: (String.join (lines.map (· ++ "\n"))).toList = lines.flatMap ('\n' :: ·.toList) ++ ['\n'] := by
  induction lines with
  | nil => rfl
  | cons line lines ih =>
      rw [List.flatMap_cons, List.append_assoc, ← ih]
      simp

theorem exists_lines (n : Node) : ∃ lines : List String,
    n.indentedSexp = String.join (lines.map (· ++ "\n")) ∧ (∀ line ∈ lines, '\n' ∉ line.toList) ∧
      List.Forall₂ ShowsNode lines n.outline := by
  obtain ⟨lines, hlines, hshows⟩ := onLines_write n 0 0
  refine ⟨lines, ?_, ?_, hshows⟩
  · rw [List.replicate_zero, List.append_nil] at hlines
    have htext := toList_join_lines lines
    rw [← hlines, List.cons_append, ← toList_indentedSexp] at htext
    exact (String.toList_inj.mp (List.cons.inj htext).2).symm
  · intro line hline
    have hall := hshows.imp fun line place hplace => And.intro hplace.newline_not_mem hplace
    exact ((List.forall₂_and_left _ _).mp hall).1 line hline

theorem outlineList_map_snd {nodes : List Node}
    (hnodes : ∀ n ∈ nodes, ∀ depth, (outlineFrom depth n).map Prod.snd = n.preorder) (depth : Nat) :
    (outlineList depth nodes).map Prod.snd = preorderList nodes := by
  induction nodes with
  | nil => rfl
  | cons n nodes ih =>
      obtain ⟨hn, hlater⟩ := List.forall_mem_cons.mp hnodes
      rw [outlineList, List.map_append, hn depth, ih hlater, preorderList]

theorem outlineFrom_map_snd (n : Node) :
    ∀ depth, (outlineFrom depth n).map Prod.snd = n.preorder := by
  induction n with
  | node kind children span literal ih =>
      intro depth
      rw [outlineFrom, List.map_cons, outlineList_map_snd ih, preorder]

/-- Two trees have the same indented form exactly if they are the same but for the offsets of their places.  The
form has a line for each node of the tree, in pre-order. -/
theorem indentedSexp_spec (n m : Node) :
    (n.indentedSexp = m.indentedSexp ↔
      n.mapPositions Position.shown = m.mapPositions Position.shown) ∧
    (∃ lines : List String, n.indentedSexp = String.join (lines.map (· ++ "\n")) ∧
      (∀ line ∈ lines, '\n' ∉ line.toList) ∧ List.Forall₂ ShowsNode lines n.outline) ∧
    n.outline.map Prod.snd = n.preorder := by
  refine ⟨?_, exists_lines n, outlineFrom_map_snd n 0⟩
  rw [← String.toList_inj, toList_indentedSexp, toList_indentedSexp, List.append_cancel_right_eq]
  exact indentedForm_tells.write_inj (fun _ _ => trivial) (fun _ _ => trivial) 0

end Node

end ScriptSyntax
