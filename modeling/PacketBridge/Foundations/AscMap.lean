import PacketBridge.Foundations.BigEndian
import Mathlib.Data.List.Lex
import Mathlib.Tactic.Common

/-! Finite maps kept as entries in ascending order of their keys, the behaviour of `std::map` that
iteration and search show. -/
namespace Foundations

/-- A finite map, stored as its entries in strictly ascending order of their keys. -/
structure AscMap (κ α : Type) [LinearOrder κ] where
  entries : List (κ × α)
  ascending : entries.Pairwise fun e e' => e.1 < e'.1

namespace AscMap

variable {κ α : Type} [LinearOrder κ]

def empty : AscMap κ α := ⟨[], List.Pairwise.nil⟩

instance : EmptyCollection (AscMap κ α) := ⟨empty⟩

def find (m : AscMap κ α) (k : κ) : Option α := (m.entries.find? fun e => e.1 = k).map Prod.snd

/-- Put an entry in its place, instead of the entry with its key if there is one. -/
def setAsc (k : κ) (v : α) : List (κ × α) → List (κ × α)
  | [] => [(k, v)]
  | e :: es =>
    if k < e.1 then (k, v) :: e :: es
    else if k = e.1 then (k, v) :: es
    else e :: setAsc k v es

theorem mem_setAsc (k : κ) (v : α) (l : List (κ × α)) (hl : l.Pairwise fun e e' => e.1 < e'.1)
    (x : κ × α) : x ∈ setAsc k v l ↔ x = (k, v) ∨ x ∈ l ∧ x.1 ≠ k := by
  induction l with
  | nil => simp only [setAsc, List.mem_singleton, List.not_mem_nil, false_and, or_false]
  | cons e es ih =>
    obtain ⟨he, hes⟩ := List.pairwise_cons.mp hl
    have hbehind (hle : k ≤ e.1) (hx : x ∈ es) : x.1 ≠ k := (hle.trans_lt (he x hx)).ne'
    unfold setAsc
    split
    · rename_i hlt
      rw [List.mem_cons, List.mem_cons]
      refine or_congr_right (iff_self_and.mpr ?_)
      rintro (rfl | hx)
      · exact hlt.ne'
      · exact hbehind hlt.le hx
    · split
      · rename_i hke
        rw [List.mem_cons, List.mem_cons]
        refine or_congr_right ⟨fun hx => ⟨Or.inr hx, hbehind hke.le hx⟩, ?_⟩
        rintro ⟨rfl | hx, hne⟩
        · exact absurd hke.symm hne
        · exact hx
      · rename_i hne
        rw [List.mem_cons, List.mem_cons, ih hes]
        constructor
        · rintro (rfl | rfl | ⟨hx, hk⟩)
          · exact Or.inr ⟨Or.inl rfl, Ne.symm hne⟩
          · exact Or.inl rfl
          · exact Or.inr ⟨Or.inr hx, hk⟩
        · rintro (rfl | ⟨rfl | hx, hk⟩)
          · exact Or.inr (Or.inl rfl)
          · exact Or.inl rfl
          · exact Or.inr (Or.inr ⟨hx, hk⟩)

theorem setAsc_ascending (k : κ) (v : α) (l : List (κ × α))
    (hl : l.Pairwise fun e e' => e.1 < e'.1) :
    (setAsc k v l).Pairwise fun e e' => e.1 < e'.1 := by
  induction l with
  | nil => exact List.pairwise_singleton _ _
  | cons e es ih =>
    obtain ⟨he, hes⟩ := List.pairwise_cons.mp hl
    unfold setAsc
    split
    · rename_i hlt
      refine List.pairwise_cons.mpr ⟨?_, hl⟩
      intro x hx
      rcases List.mem_cons.mp hx with rfl | hx
      · exact hlt
      · exact hlt.trans (he x hx)
    · split
      · rename_i hke
        refine List.pairwise_cons.mpr ⟨?_, hes⟩
        intro x hx
        exact hke.trans_lt (he x hx)
      · rename_i hnlt hne
        refine List.pairwise_cons.mpr ⟨?_, ih hes⟩
        intro x hx
        rcases (mem_setAsc k v es hes x).mp hx with rfl | ⟨hx, -⟩
        · exact lt_of_le_of_ne (not_lt.mp hnlt) (Ne.symm hne)
        · exact he x hx

def set (m : AscMap κ α) (k : κ) (v : α) : AscMap κ α :=
  ⟨setAsc k v m.entries, setAsc_ascending k v m.entries m.ascending⟩

/-- Erase, in one pass, the entries that fail the test. -/
def keep (m : AscMap κ α) (p : α → Bool) : AscMap κ α :=
  ⟨m.entries.filter fun e => p e.2, m.ascending.filter _⟩

theorem find_eq_some_iff (m : AscMap κ α) (k : κ) (v : α) :
    m.find k = some v ↔ (k, v) ∈ m.entries := by
  obtain ⟨l, hl⟩ := m
  rw [find]
  induction l with
  | nil => simp only [List.find?_nil, Option.map_none, reduceCtorEq, List.not_mem_nil]
  | cons e es ih =>
    obtain ⟨he, hes⟩ := List.pairwise_cons.mp hl
    simp only [List.find?_cons, List.mem_cons] at ih ⊢
    by_cases hk : e.1 = k
    · simp only [hk, decide_true, Option.map_some, Option.some.injEq]
      constructor
      · rintro rfl
        exact Or.inl (Prod.ext hk.symm rfl)
      · rintro (heq | hmem)
        · rw [← heq]
        · exact absurd hk (he _ hmem).ne
    · simp only [hk, decide_false]
      rw [ih hes, iff_or_self]
      rintro heq
      rw [← heq] at hk
      exact absurd rfl hk

theorem find_set (m : AscMap κ α) (k k' : κ) (v : α) :
    (m.set k v).find k' = if k' = k then some v else m.find k' := by
  apply Option.ext
  intro x
  rw [find_eq_some_iff, set, mem_setAsc k v m.entries m.ascending, Prod.mk.injEq]
  split
  · rename_i hk
    rw [Option.some.injEq]
    simp only [hk, true_and, ne_eq, not_true_eq_false, and_false, or_false]
    exact eq_comm
  · rename_i hk
    simp only [hk, false_and, ne_eq, not_false_eq_true, and_true, false_or]
    rw [find_eq_some_iff]

theorem find_keep (m : AscMap κ α) (p : α → Bool) (k : κ) :
    (m.keep p).find k = (m.find k).filter p := by
  apply Option.ext
  intro x
  rw [find_eq_some_iff, keep, List.mem_filter, Option.filter_eq_some_iff, find_eq_some_iff]

end AscMap

/-- The bytes in their usual order. With it byte strings are compared as `std::string` does. -/
instance uint8LinearOrder : LinearOrder UInt8 where
  le_refl _ := UInt8.le_refl _
  le_trans _ _ _ := UInt8.le_trans
  lt_iff_le_not_ge _ _ := by
    simp only [UInt8.lt_iff_toNat_lt, UInt8.le_iff_toNat_le]
    omega
  le_antisymm _ _ := UInt8.le_antisymm
  le_total := UInt8.le_total
  toDecidableLE := inferInstance
  toDecidableLT := inferInstance

end Foundations
