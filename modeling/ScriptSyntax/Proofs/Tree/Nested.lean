import Mathlib.Data.List.Nodup
import ScriptSyntax.Proofs.Tree.Every
import ScriptSyntax.Proofs.Tree.Moved
import ScriptSyntax.Token.Scan

/-!
Trees written between parentheses.  Where the head of each node tells the node and shows where it ends, the
whole text tells the tree and shows where it ends, `TreeForm.Tells.write_append_inj`.
-/

namespace ScriptSyntax

/-! ### Names and literals -/

theorem NodeKind.name_injective {k l : NodeKind} (h : k.name = l.name) : k = l := by
  have hnodup : (NodeKind.all.map NodeKind.name).Nodup := by decide +kernel
  exact List.inj_on_of_nodup_map hnodup k.mem_all l.mem_all h

theorem NodeKind.isWordTail_of_mem_name (k : NodeKind) : ∀ c ∈ k.name.toList, Scan.isWordTail c := by
  have hall : ∀ k ∈ NodeKind.all, k.name.toList.all Scan.isWordTail := by decide +kernel
  exact List.all_eq_true.mp (hall k k.mem_all)

namespace Node

/-- A literal with a blank before it. -/
def spaced : Option String → List Char
  | some text => ' ' :: text.toList
  | none => []

theorem spaced_injective {first second : Option String} (h : spaced first = spaced second) :
    first = second := by
  cases first with
  | none =>
      cases second with
      | none => rfl
      | some text => cases h
  | some text =>
      cases second with
      | none => cases h
      | some text' => rw [String.toList_inj.mp (List.cons.inj h).2]

end Node

/-! ### Trees between parentheses -/

/-- A way to write trees: what a node begins with, by its depth, and the character before each tree below it.  A
parenthesis closes the node behind the last of these trees. -/
structure TreeForm where
  head : Nat → Node → List Char
  gap : Char

namespace TreeForm

mutual
/-- The text of a tree whose root is `depth` levels deep. -/
def write (form : TreeForm) (depth : Nat) : Node → List Char
  | ⟨kind, children, span, literal⟩ =>
      form.head depth ⟨kind, children, span, literal⟩ ++ form.writeList (depth + 1) children ++ [')']
/-- The texts of a list of trees, a gap before each. -/
def writeList (form : TreeForm) (depth : Nat) : List Node → List Char
  | [] => []
  | n :: nodes => form.gap :: form.write depth n ++ form.writeList depth nodes
end

variable {form : TreeForm}

theorem write_eq (depth : Nat) (n : Node) :
    form.write depth n = form.head depth n ++ form.writeList (depth + 1) n.children ++ [')'] := by
  cases n
  rw [write]

theorem writeList_nil (depth : Nat) : form.writeList depth [] = [] := by
  rw [writeList]

theorem writeList_cons (depth : Nat) (n : Node) (nodes : List Node) :
    form.writeList depth (n :: nodes) =
      form.gap :: form.write depth n ++ form.writeList depth nodes := by
  rw [writeList]

/-- The two functions append trees to a text in the form, the second one those of a list. -/
structure Appends (form : TreeForm) (append : Nat → String → Node → String)
    (appendList : Nat → String → List Node → String) : Prop where
  node : ∀ (depth : Nat) (out : String) (n : Node), ∃ opened : String,
    opened.toList = out.toList ++ form.head depth n ∧
      append depth out n = appendList (depth + 1) opened n.children ++ ")"
  nil : ∀ (depth : Nat) (out : String), appendList depth out [] = out
  cons : ∀ (depth : Nat) (out : String) (n : Node) (nodes : List Node), appendList depth out (n :: nodes) =
    appendList depth (append depth (out ++ String.singleton form.gap) n) nodes

section
variable {append : Nat → String → Node → String} {appendList : Nat → String → List Node → String}
  (happends : form.Appends append appendList)
include happends

theorem Appends.toList_appendList {nodes : List Node}
    (hnodes : ∀ n ∈ nodes, ∀ (depth : Nat) (out : String),
      (append depth out n).toList = out.toList ++ form.write depth n) (depth : Nat) (out : String) :
    (appendList depth out nodes).toList = out.toList ++ form.writeList depth nodes := by
  induction nodes generalizing out with
  | nil => rw [happends.nil, writeList_nil, List.append_nil]
  | cons n nodes ih =>
      obtain ⟨hn, hlater⟩ := List.forall_mem_cons.mp hnodes
      rw [happends.cons, ih hlater, hn depth, String.toList_append, String.toList_singleton, writeList_cons]
      simp

theorem Appends.toList_append (n : Node) : ∀ (depth : Nat) (out : String),
    (append depth out n).toList = out.toList ++ form.write depth n := by
  induction n with
  | node kind children span literal ih =>
      intro depth out
      obtain ⟨opened, hopened, hnode⟩ := happends.node depth out ⟨kind, children, span, literal⟩
      rw [hnode, String.toList_append, happends.toList_appendList ih, hopened, write_eq]
      simp only [List.append_assoc]
      rfl

end

/-- The text can stand behind the head of a node: the node is closed, or a tree below it comes next. -/
def Follows (form : TreeForm) (text : List Char) : Prop :=
  (∃ rest, text = ')' :: rest) ∨ ∃ depth n rest, text = form.gap :: (form.head depth n ++ rest)

theorem follows_writeList (depth : Nat) (nodes : List Node) (x : List Char) :
    form.Follows (form.writeList depth nodes ++ ')' :: x) := by
  cases nodes with
  | nil =>
      rw [writeList_nil]
      exact .inl ⟨x, rfl⟩
  | cons n nodes =>
      rw [writeList_cons, write_eq]
      rw [List.append_assoc, List.append_assoc, List.cons_append, List.append_assoc]
      exact .inr ⟨depth, n, _, rfl⟩

theorem Follows.head_eq_false {text : List Char} (h : form.Follows text) {p : Char → Bool}
    (hgap : p form.gap = false) (hclose : p ')' = false) : ∀ c ∈ text.head?, p c = false := by
  rintro c hc
  obtain ⟨rest, rfl⟩ | ⟨depth, n, rest, rfl⟩ := h
  · obtain rfl : ')' = c := by simpa using hc
    exact hclose
  · obtain rfl : form.gap = c := by simpa using hc
    exact hgap

/-- The head of a node with the property shows where it ends, and it tells the node itself but for what `f` forgets
of its places, no more and no less. -/
structure Tells (form : TreeForm) (P : Node → Prop) (f : Position → Position) : Prop where
  gap_ne : form.gap ≠ ')'
  head_mapPositions : ∀ (depth : Nat) (n : Node), form.head depth (n.mapPositions f) = form.head depth n
  head_inj : ∀ {depth : Nat} {n m : Node} {x y : List Char}, P n → P m → form.Follows x → form.Follows y →
    form.head depth n ++ x = form.head depth m ++ y →
      n.kind = m.kind ∧ n.literal = m.literal ∧ n.span.mapPositions f = m.span.mapPositions f ∧ x = y

variable {P : Node → Prop} {f : Position → Position}

theorem Tells.writeList_append_inj (hform : form.Tells P f) {depth : Nat} {nodes : List Node}
    (hnodes : ∀ n ∈ nodes, ∀ (m : Node) (x y : List Char), m.Every P →
      form.write depth n ++ x = form.write depth m ++ y → n.mapPositions f = m.mapPositions f ∧ x = y)
    {nodes' : List Node} (hnodes' : ∀ m ∈ nodes', m.Every P) {x y : List Char}
    (h : form.writeList depth nodes ++ ')' :: x = form.writeList depth nodes' ++ ')' :: y) :
    nodes.map (·.mapPositions f) = nodes'.map (·.mapPositions f) ∧ x = y := by
  induction nodes generalizing nodes' with
  | nil =>
      cases nodes' with
      | nil =>
          rw [writeList_nil] at h
          exact ⟨rfl, (List.cons.inj h).2⟩
      | cons m nodes' =>
          rw [writeList_nil, writeList_cons] at h
          exact absurd (List.cons.inj h).1.symm hform.gap_ne
  | cons n nodes ih =>
      cases nodes' with
      | nil =>
          rw [writeList_nil, writeList_cons] at h
          exact absurd (List.cons.inj h).1 hform.gap_ne
      | cons m nodes' =>
          rw [writeList_cons, writeList_cons, List.append_assoc, List.append_assoc, List.cons_append,
            List.cons_append] at h
          obtain ⟨hn, hlater⟩ := List.forall_mem_cons.mp hnodes
          obtain ⟨hm, hlater'⟩ := List.forall_mem_cons.mp hnodes'
          obtain ⟨hfirst, hrest⟩ := hn m _ _ hm (List.cons.inj h).2
          obtain ⟨hothers, hbehind⟩ := ih hlater hlater' hrest
          exact ⟨by rw [List.map_cons, List.map_cons, hfirst, hothers], hbehind⟩

/-- A tree, but for what `f` forgets of its places, and what follows it can be told from the text of both. -/
theorem Tells.write_append_inj (hform : form.Tells P f) {n : Node} (hn : n.Every P) :
    ∀ {depth : Nat} {m : Node} {x y : List Char}, m.Every P →
      form.write depth n ++ x = form.write depth m ++ y → n.mapPositions f = m.mapPositions f ∧ x = y := by
  induction n with
  | node kind children span literal ih =>
      intro depth m x y hm h
      obtain ⟨kind', children', span', literal'⟩ := m
      obtain ⟨hroot, hbelow⟩ := Node.every_iff.mp hn
      obtain ⟨hroot', hbelow'⟩ := Node.every_iff.mp hm
      rw [write_eq, write_eq, List.append_assoc, List.append_assoc, List.append_assoc,
        List.append_assoc] at h
      obtain ⟨hkind, hliteral, hspan, hrest⟩ := hform.head_inj hroot hroot'
        (follows_writeList _ _ _) (follows_writeList _ _ _) h
      obtain ⟨hchildren, hbehind⟩ := hform.writeList_append_inj
        (fun child hchild m x y hm => ih child hchild (hbelow child hchild) hm) hbelow' hrest
      refine ⟨?_, hbehind⟩
      simp only at hkind hliteral hspan hchildren
      rw [Node.mapPositions_mk, Node.mapPositions_mk, hkind, hliteral, hspan, hchildren]

theorem writeList_eq_flatMap (depth : Nat) (nodes : List Node) :
    form.writeList depth nodes = nodes.flatMap fun n => form.gap :: form.write depth n := by
  induction nodes with
  | nil => exact writeList_nil depth
  | cons n nodes ih => rw [writeList_cons, ih, List.flatMap_cons]

theorem Tells.write_mapPositions (hform : form.Tells P f) (n : Node) :
    ∀ depth, form.write depth (n.mapPositions f) = form.write depth n := by
  induction n with
  | node kind children span literal ih =>
      intro depth
      have hhead := hform.head_mapPositions depth ⟨kind, children, span, literal⟩
      have hchildren : form.writeList (depth + 1) (children.map (·.mapPositions f)) =
          form.writeList (depth + 1) children := by
        rw [writeList_eq_flatMap, writeList_eq_flatMap, List.flatMap_map]
        exact List.flatMap_congr fun child hchild => by rw [ih child hchild]
      rw [write_eq, write_eq, hhead, Node.mapPositions_mk]
      simp only [hchildren]

theorem Tells.write_inj (hform : form.Tells P f) {n m : Node} (hn : n.Every P) (hm : m.Every P)
    (depth : Nat) : form.write depth n = form.write depth m ↔ n.mapPositions f = m.mapPositions f := by
  constructor
  · intro h
    have hsame : form.write depth n ++ [] = form.write depth m ++ [] := by rw [h]
    exact (hform.write_append_inj hn hm hsame).1
  · intro h
    rw [← hform.write_mapPositions n, h, hform.write_mapPositions]

end TreeForm

end ScriptSyntax
