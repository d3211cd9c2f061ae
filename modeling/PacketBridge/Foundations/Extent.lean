import PacketBridge.Foundations.BigEndian
import Mathlib.Data.List.Basic

/-! Byte strings written in place: a write at an offset, and what stands where afterwards. -/
namespace Foundations

/-- Write `bs` at `off`; a gap between the end of `file` and `off` is filled with zero bytes. -/
def writeAt (file : Bytes) (off : ℕ) (bs : Bytes) : Bytes :=
  if bs = [] then file
  else file.take off ++ List.replicate (off-file.length) 0 ++ bs ++ file.drop (off+bs.length)

/-- The bytes `bs` stand in `file` at offset `off`. -/
def HoldsAt (file : Bytes) (off : ℕ) (bs : Bytes) : Prop := ∀ k, k < bs.length → file[off+k]? = bs[k]?

@[simp] theorem writeAt_nil (file : Bytes) (off : ℕ) : writeAt file off [] = file := if_pos rfl

theorem writeAt_empty (bs : Bytes) : writeAt [] 0 bs = bs := by
  unfold writeAt
  split
  · rename_i h
    exact h.symm
  · simp only [List.take_nil, List.length_nil, Nat.sub_zero, List.replicate_zero, List.nil_append,
      List.drop_nil, List.append_nil]

theorem length_writeAt (file : Bytes) (off : ℕ) (bs : Bytes) (hn : bs ≠ []) :
    (writeAt file off bs).length = max file.length (off+bs.length) := by
  simp only [writeAt, hn, ↓reduceIte, List.length_append, List.length_take,
    List.length_replicate, List.length_drop]
  omega

theorem length_le_writeAt (file : Bytes) (off : ℕ) (bs : Bytes) :
    file.length ≤ (writeAt file off bs).length := by
  by_cases hn : bs = []
  · rw [hn, writeAt_nil]
  · rw [length_writeAt file off bs hn]
    exact Nat.le_max_left _ _

theorem length_writeAt_le (file : Bytes) (off n : ℕ) (bs : Bytes) (hc : file.length ≤ n)
    (hb : off+bs.length ≤ n) : (writeAt file off bs).length ≤ n := by
  by_cases hn : bs = []
  · rwa [hn, writeAt_nil]
  · rw [length_writeAt file off bs hn]
    exact Nat.max_le.mpr ⟨hc, hb⟩

theorem getElem?_writeAt (file : Bytes) (off i : ℕ) (bs : Bytes) (hn : bs ≠ []) :
    (writeAt file off bs)[i]? =
      if i < off then (if i < file.length then file[i]? else some 0)
      else if i < off+bs.length then bs[i-off]? else file[i]? := by
  have hpos : 0 < bs.length := List.length_pos_iff.mpr hn
  have hpre : (file.take off ++ List.replicate (off-file.length) (0 : UInt8)).length = off := by
    simp only [List.length_append, List.length_take, List.length_replicate]
    omega
  simp only [writeAt, hn, ↓reduceIte]
  rw [List.append_assoc (file.take off ++ _) bs]
  by_cases hi : i < off
  · rw [List.getElem?_append_left (by omega), if_pos hi]
    by_cases hc : i < file.length
    · rw [if_pos hc, List.getElem?_append_left (by simp only [List.length_take]; omega),
        List.getElem?_take_of_lt hi]
    · rw [if_neg hc, List.getElem?_append_right (by simp only [List.length_take]; omega),
        List.getElem?_replicate, if_pos (by simp only [List.length_take]; omega)]
  · rw [List.getElem?_append_right (by omega), hpre, if_neg hi]
    by_cases hb : i < off+bs.length
    · rw [if_pos hb, List.getElem?_append_left (by omega)]
    · rw [if_neg hb, List.getElem?_append_right (by omega), List.getElem?_drop]
      congr 1
      omega

theorem getElem?_writeAt_outside (file : Bytes) (off i : ℕ) (bs : Bytes) (hi : i < file.length)
    (ho : i < off ∨ off+bs.length ≤ i) : (writeAt file off bs)[i]? = file[i]? := by
  by_cases hn : bs = []
  · rw [hn, writeAt_nil]
  · rw [getElem?_writeAt file off i bs hn]
    split_ifs <;> first | rfl | omega

@[simp] theorem holdsAt_nil (file : Bytes) (off : ℕ) : HoldsAt file off [] :=
  fun _ hk => absurd hk (Nat.not_lt_zero _)

theorem holdsAt_writeAt (file : Bytes) (off : ℕ) (bs : Bytes) :
    HoldsAt (writeAt file off bs) off bs := by
  intro k hk
  have hn : bs ≠ [] := List.ne_nil_of_length_pos (by omega)
  rw [getElem?_writeAt file off _ bs hn, if_neg (by omega), if_pos (by omega),
    Nat.add_sub_cancel_left]

theorem holdsAt_length (file : Bytes) (off : ℕ) (bs : Bytes) (h : HoldsAt file off bs) (hn : bs ≠ []) :
    off+bs.length ≤ file.length := by
  have hpos : 0 < bs.length := List.length_pos_iff.mpr hn
  have hl := h (bs.length-1) (by omega)
  rw [List.getElem?_eq_getElem (show bs.length-1 < bs.length by omega)] at hl
  have hlt := (List.getElem?_eq_some_iff.mp hl).1
  omega

theorem holdsAt_writeAt_beside (file : Bytes) (off off' : ℕ) (bs bs' : Bytes)
    (h : HoldsAt file off' bs') (hd : off'+bs'.length ≤ off ∨ off+bs.length ≤ off') :
    HoldsAt (writeAt file off bs) off' bs' := by
  intro k hk
  have hl := holdsAt_length file off' bs' h (List.ne_nil_of_length_pos (by omega))
  rw [getElem?_writeAt_outside file off _ bs (by omega) (by omega), h k hk]

/-- Writing two pieces one behind the other is one write of both. -/
theorem writeAt_writeAt (file : Bytes) (off : ℕ) (a b : Bytes) :
    writeAt (writeAt file off a) (off+a.length) b = writeAt file off (a ++ b) := by
  by_cases ha : a = []
  · simp only [ha, writeAt_nil, List.length_nil, Nat.add_zero, List.nil_append]
  by_cases hb : b = []
  · simp only [hb, writeAt_nil, List.append_nil]
  have hab : a ++ b ≠ [] := fun h => ha (List.append_eq_nil_iff.mp h).1
  have hpos : 0 < a.length := List.length_pos_iff.mpr ha
  apply List.ext_getElem?
  intro i
  rw [getElem?_writeAt _ _ _ b hb, getElem?_writeAt _ _ _ (a ++ b) hab,
    getElem?_writeAt _ _ _ a ha, length_writeAt _ _ _ ha, List.length_append]
  by_cases h1 : i < off
  · rw [if_pos (by omega), if_pos (by omega), if_pos h1, if_pos h1]
  by_cases h2 : i < off+a.length
  · rw [if_pos h2, if_pos (by omega), if_neg h1, if_pos h2, if_neg h1, if_pos (by omega),
      List.getElem?_append_left (by omega)]
  by_cases h3 : i < off+a.length+b.length
  · rw [if_neg h2, if_pos h3, if_neg h1, if_pos (by omega), List.getElem?_append_right (by omega)]
    congr 1
    omega
  · rw [if_neg h2, if_neg h3, if_neg h1, if_neg h2, if_neg h1, if_neg (by omega)]

def slice (file : Bytes) (off n : ℕ) : Bytes := (file.drop off).take n

theorem length_slice (file : Bytes) (off n : ℕ) (h : off+n ≤ file.length) :
    (slice file off n).length = n := by
  simp only [slice, List.length_take, List.length_drop]
  omega

theorem getElem?_slice (file : Bytes) (off n k : ℕ) (hk : k < n) :
    (slice file off n)[k]? = file[off+k]? := by
  rw [slice, List.getElem?_take_of_lt hk, List.getElem?_drop]

/-- `file` agrees with `f` on the `n` bytes at `off`. -/
theorem holdsAt_slice_iff (file f : Bytes) (off n : ℕ) (h : off+n ≤ f.length) :
    HoldsAt file off (slice f off n) ↔ ∀ i, off ≤ i → i < off+n → file[i]? = f[i]? := by
  constructor
  · intro hh i hi hi'
    have hk := hh (i-off) (by rw [length_slice f off n h]; omega)
    rwa [getElem?_slice f off n _ (by omega), Nat.add_sub_cancel' hi] at hk
  · intro hh k hk
    rw [length_slice f off n h] at hk
    rw [getElem?_slice f off n k hk, hh _ (by omega) (by omega)]

theorem slice_eq_of_holdsAt (file : Bytes) (off : ℕ) (bs : Bytes) (h : HoldsAt file off bs) :
    slice file off bs.length = bs := by
  apply List.ext_getElem?
  intro k
  rcases Nat.lt_or_ge k bs.length with hk | hk
  · rw [getElem?_slice file off _ k hk, h k hk]
  · have hshort : (slice file off bs.length).length ≤ k := (List.length_take_le _ _).trans hk
    rw [List.getElem?_eq_none hshort, List.getElem?_eq_none hk]

end Foundations
