import Mathlib.Data.List.Forall2
import ScriptSyntax.Diagnostic.Basic

/-!
The order of diagnostics.  Sorting by place commutes with what leaves the places in order: dropping some of
the diagnostics, and putting others of the same order in their stead.
-/

namespace ScriptSyntax.Diagnostic

/-- The diagnostic does not start behind the other. -/
def NotBehind (d e : Diagnostic) : Prop := d.span.start.offset ≤ e.span.start.offset

theorem mem_insertInOrder {d e : Diagnostic} {ds : List Diagnostic} :
    e ∈ insertInOrder d ds ↔ e = d ∨ e ∈ ds := by
  rw [(insertInOrder_perm d ds).mem_iff, List.mem_cons]

theorem pairwise_insertInOrder (d : Diagnostic) {ds : List Diagnostic} (h : ds.Pairwise NotBehind) :
    (insertInOrder d ds).Pairwise NotBehind := by
  induction ds with
  | nil => exact List.pairwise_singleton _ _
  | cons e ds ih =>
      obtain ⟨hfirst, hrest⟩ := List.pairwise_cons.mp h
      unfold insertInOrder
      split
      · rename_i hbehind
        refine List.pairwise_cons.mpr ⟨?_, ih hrest⟩
        intro later hlater
        rcases mem_insertInOrder.mp hlater with rfl | hlater
        · exact Nat.le_of_lt hbehind
        · exact hfirst later hlater
      · rename_i hbefore
        have hle : NotBehind d e := Nat.le_of_not_lt hbefore
        refine List.pairwise_cons.mpr ⟨List.forall_mem_cons.mpr ⟨hle, ?_⟩, h⟩
        intro later hlater
        exact Nat.le_trans hle (hfirst later hlater)

theorem pairwise_inSourceOrder (ds : List Diagnostic) : (inSourceOrder ds).Pairwise NotBehind := by
  induction ds with
  | nil => exact .nil
  | cons d ds ih => exact pairwise_insertInOrder d ih

theorem insertInOrder_of_notBehind {d : Diagnostic} {ds : List Diagnostic}
    (h : ∀ e ∈ ds, NotBehind d e) : insertInOrder d ds = d :: ds := by
  cases ds with
  | nil => rfl
  | cons e ds => exact if_neg (Nat.not_lt.mpr (h e List.mem_cons_self))

theorem filter_insertInOrder (p : Diagnostic → Bool) (d : Diagnostic) {ds : List Diagnostic}
    (h : ds.Pairwise NotBehind) :
    (insertInOrder d ds).filter p =
      if p d then insertInOrder d (ds.filter p) else ds.filter p := by
  induction ds with
  | nil => cases hd : p d <;> simp [insertInOrder, hd]
  | cons e ds ih =>
      obtain ⟨hfirst, hrest⟩ := List.pairwise_cons.mp h
      rw [insertInOrder]
      split
      · rename_i hbehind
        rw [List.filter_cons, ih hrest, List.filter_cons]
        by_cases he : p e
        · simp only [he, if_true, insertInOrder, if_pos hbehind]
          split <;> rfl
        · simp only [he, Bool.false_eq_true, if_false]
      · rename_i hbefore
        rw [List.filter_cons]
        split
        · -- the diagnostic stays in front of all those that are kept
          refine (insertInOrder_of_notBehind ?_).symm
          intro later hlater
          have hle : NotBehind d e := Nat.le_of_not_lt hbefore
          rcases List.mem_cons.mp (List.mem_of_mem_filter hlater) with rfl | hlater
          · exact hle
          · exact Nat.le_trans hle (hfirst later hlater)
        · rfl

theorem filter_inSourceOrder (p : Diagnostic → Bool) (ds : List Diagnostic) :
    (inSourceOrder ds).filter p = inSourceOrder (ds.filter p) := by
  induction ds with
  | nil => rfl
  | cons d ds ih =>
      show (insertInOrder d (inSourceOrder ds)).filter p = _
      rw [filter_insertInOrder p d (pairwise_inSourceOrder ds), ih, List.filter_cons]
      split <;> rfl

section
variable {R : Diagnostic → Diagnostic → Prop}
  (horder : ∀ {d d' e e' : Diagnostic}, R d d' → R e e' →
    (e.span.start.offset < d.span.start.offset ↔ e'.span.start.offset < d'.span.start.offset))
include horder

theorem forall₂_insertInOrder {d d' : Diagnostic} {ds ds' : List Diagnostic} (hd : R d d')
    (hds : List.Forall₂ R ds ds') :
    List.Forall₂ R (insertInOrder d ds) (insertInOrder d' ds') := by
  induction hds with
  | nil => exact .cons hd .nil
  | cons he hrest ih =>
      unfold insertInOrder
      simp only [horder hd he]
      split
      · exact .cons he ih
      · exact .cons hd (.cons he hrest)

theorem forall₂_inSourceOrder {ds ds' : List Diagnostic} (hds : List.Forall₂ R ds ds') :
    List.Forall₂ R (inSourceOrder ds) (inSourceOrder ds') := by
  induction hds with
  | nil => exact .nil
  | cons hd _ ih => exact forall₂_insertInOrder horder hd ih

end

end ScriptSyntax.Diagnostic
