import Mathlib.Data.List.Sort
import Mathlib.Order.Defs.LinearOrder

/-! Finite sets kept as strictly ascending lists, the behaviour of `std::set` that iteration and
membership show. -/
namespace Foundations

/-- A finite set, stored as its elements in strictly ascending order. -/
@[ext]
structure AscSet (α : Type) [LinearOrder α] where
  toList : List α
  ascending : toList.Pairwise (· < ·)
  deriving DecidableEq

namespace AscSet

variable {α : Type} [LinearOrder α]

instance : Membership α (AscSet α) := ⟨fun s x => x ∈ s.toList⟩

instance (x : α) (s : AscSet α) : Decidable (x ∈ s) := inferInstanceAs (Decidable (x ∈ s.toList))

def empty : AscSet α := ⟨[], List.Pairwise.nil⟩

instance : EmptyCollection (AscSet α) := ⟨empty⟩

@[simp] theorem mem_toList (x : α) (s : AscSet α) : x ∈ s.toList ↔ x ∈ s := Iff.rfl

@[simp] theorem toList_empty : (∅ : AscSet α).toList = [] := rfl

@[simp] theorem not_mem_empty (x : α) : x ∉ (∅ : AscSet α) := List.not_mem_nil

/-- Place `x` before the first larger element; an element already there is not repeated. -/
def insertAsc (x : α) : List α → List α
  | [] => [x]
  | y :: ys => if x < y then x :: y :: ys else if x = y then y :: ys else y :: insertAsc x ys

theorem mem_insertAsc (x z : α) (l : List α) : z ∈ insertAsc x l ↔ z = x ∨ z ∈ l := by
  induction l with
  | nil => simp only [insertAsc, List.mem_singleton, List.not_mem_nil, or_false]
  | cons y ys ih =>
    unfold insertAsc
    split
    · exact List.mem_cons
    · split
      · rename_i hxy
        subst hxy
        simp only [List.mem_cons, or_self_left]
      · simp only [List.mem_cons, ih]
        exact or_left_comm

theorem insertAsc_ascending (x : α) (l : List α) (hl : l.Pairwise (· < ·)) :
    (insertAsc x l).Pairwise (· < ·) := by
  induction l with
  | nil => exact List.pairwise_singleton _ x
  | cons y ys ih =>
    obtain ⟨hy, hys⟩ := List.pairwise_cons.mp hl
    unfold insertAsc
    split
    · rename_i hxy
      refine List.pairwise_cons.mpr ⟨fun z hz => ?_, hl⟩
      rcases List.mem_cons.mp hz with rfl | hz
      · exact hxy
      · exact hxy.trans (hy z hz)
    · split
      · exact hl
      · rename_i hlt hne
        refine List.pairwise_cons.mpr ⟨fun z hz => ?_, ih hys⟩
        rcases (mem_insertAsc x z ys).mp hz with rfl | hz
        · exact lt_of_le_of_ne (not_lt.mp hlt) (Ne.symm hne)
        · exact hy z hz

def insert (x : α) (s : AscSet α) : AscSet α :=
  ⟨insertAsc x s.toList, insertAsc_ascending x s.toList s.ascending⟩

@[simp] theorem mem_insert (x z : α) (s : AscSet α) : z ∈ s.insert x ↔ z = x ∨ z ∈ s :=
  mem_insertAsc x z s.toList

theorem ext_mem (s t : AscSet α) (h : ∀ x, x ∈ s ↔ x ∈ t) : s = t := by
  apply AscSet.ext
  have hp : s.toList.Perm t.toList :=
    (List.perm_ext_iff_of_nodup (s.ascending.imp ne_of_lt) (t.ascending.imp ne_of_lt)).mpr h
  exact hp.eq_of_pairwise (fun a b _ _ hab hba => absurd hab hba.not_gt) s.ascending t.ascending

def insertAll (xs : List α) (s : AscSet α) : AscSet α := xs.foldl (fun s x => s.insert x) s

@[simp] theorem insertAll_nil (s : AscSet α) : insertAll [] s = s := rfl

@[simp] theorem insertAll_cons (x : α) (xs : List α) (s : AscSet α) :
    insertAll (x :: xs) s = insertAll xs (s.insert x) := rfl

@[simp] theorem mem_insertAll (z : α) (xs : List α) (s : AscSet α) :
    z ∈ insertAll xs s ↔ z ∈ xs ∨ z ∈ s := by
  induction xs generalizing s with
  | nil => simp only [insertAll_nil, List.not_mem_nil, false_or]
  | cons x xs ih =>
    rw [insertAll_cons, ih, mem_insert, List.mem_cons]
    tauto

/-- Inserting the elements of an ascending list into the empty set gives them back in order. -/
theorem insertAll_toList (s : AscSet α) : insertAll s.toList ∅ = s := by
  apply ext_mem
  intro x
  simp only [mem_insertAll, mem_toList, not_mem_empty, or_false]

theorem mem_take_iff (s : AscSet α) (t : ℕ) (x : α) (hx : s.toList[t]? = some x) (y : α) :
    y ∈ s.toList.take t ↔ y ∈ s ∧ y < x := by
  obtain ⟨ht, rfl⟩ := List.getElem?_eq_some_iff.mp hx
  have hsplit : s.toList = s.toList.take t ++ s.toList[t] :: s.toList.drop (t+1) := by
    rw [← List.drop_eq_getElem_cons ht, List.take_append_drop]
  have hasc := s.ascending
  rw [hsplit, List.pairwise_append, List.pairwise_cons] at hasc
  obtain ⟨-, ⟨hafter, -⟩, hbefore⟩ := hasc
  constructor
  · intro hy
    exact ⟨List.mem_of_mem_take hy, hbefore y hy _ List.mem_cons_self⟩
  · rintro ⟨hy, hlt⟩
    rw [← mem_toList, hsplit, List.mem_append, List.mem_cons] at hy
    rcases hy with hy | rfl | hy
    · exact hy
    · exact absurd hlt (lt_irrefl _)
    · exact absurd (hlt.trans (hafter y hy)) (lt_irrefl _)

end AscSet

instance uint64LinearOrder : LinearOrder UInt64 where
  le_refl _ := UInt64.le_refl _
  le_trans _ _ _ := UInt64.le_trans
  lt_iff_le_not_ge _ _ := by
    simp only [UInt64.lt_iff_toNat_lt, UInt64.le_iff_toNat_le]
    omega
  le_antisymm _ _ := UInt64.le_antisymm
  le_total := UInt64.le_total
  toDecidableLE := inferInstance
  toDecidableLT := inferInstance

end Foundations
