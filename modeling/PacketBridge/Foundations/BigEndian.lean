import Mathlib.Tactic.Ring
import Mathlib.Data.List.Basic

namespace Foundations

abbrev Bytes := List UInt8

def ascii (s : String) : Bytes := s.toList.map fun c => UInt8.ofNat c.toNat

/-- The `n` low bytes of `v`, most significant first. -/
def toBE : ℕ → ℕ → Bytes
  | 0, _ => []
  | n+1, v => UInt8.ofNat (v/256^n) :: toBE n v

def ofBE : Bytes → ℕ
  | [] => 0
  | b :: bs => b.toNat*256^bs.length + ofBE bs

@[simp] theorem length_toBE (n v : ℕ) : (toBE n v).length = n := by
  induction n with
  | zero => rfl
  | succ n ih => simp only [toBE, List.length_cons, ih]

theorem toBE_ne_nil (n v : ℕ) (hn : 0 < n) : toBE n v ≠ [] :=
  List.ne_nil_of_length_pos (by rw [length_toBE]; exact hn)

theorem ofBE_lt (bs : Bytes) : ofBE bs < 256^bs.length := by
  induction bs with
  | nil => exact Nat.one_pos
  | cons b bs ih =>
    have hb : b.toNat ≤ 255 := Nat.le_of_lt_succ b.toNat_lt
    have hm : b.toNat*256^bs.length ≤ 255*256^bs.length := Nat.mul_le_mul_right _ hb
    simp only [ofBE, List.length_cons, pow_succ]
    omega

/-- Only the low `n` bytes of a number enter its big-endian form. -/
theorem ofBE_toBE (n v : ℕ) : ofBE (toBE n v) = v%256^n := by
  induction n with
  | zero => simp only [toBE, ofBE, pow_zero, Nat.mod_one]
  | succ n ih =>
    have hb : (UInt8.ofNat (v/256^n)).toNat = v/256^n%256 := UInt8.toNat_ofNat'
    rw [toBE, ofBE, length_toBE, ih, hb, pow_succ, Nat.mod_mul]
    ring

theorem ofBE_toBE_of_lt (n v : ℕ) (hv : v < 256^n) : ofBE (toBE n v) = v := by
  rw [ofBE_toBE, Nat.mod_eq_of_lt hv]

/-- A leading digit above the `n` low bytes does not change them. -/
theorem toBE_add_mul (n d v : ℕ) : toBE n (d*256^n + v) = toBE n v := by
  suffices h : ∀ m, n ≤ m → toBE n (d*256^m + v) = toBE n v from h n le_rfl
  induction n generalizing v with
  | zero => intro m _; rfl
  | succ n ih =>
    intro m hm
    obtain ⟨k, rfl⟩ : ∃ k, m = n+1+k := ⟨m-(n+1), by omega⟩
    have hq : (d*256^(n+1+k) + v)/256^n = d*256^k*256 + v/256^n := by
      rw [show d*256^(n+1+k) + v = v + 256^n*(d*256^k*256) by ring,
        Nat.add_mul_div_left _ _ (Nat.pow_pos (by decide)), Nat.add_comm]
    have hd : UInt8.ofNat (d*256^k*256 + v/256^n) = UInt8.ofNat (v/256^n) := by
      apply UInt8.toNat_inj.mp
      rw [UInt8.toNat_ofNat', UInt8.toNat_ofNat']
      omega
    rw [toBE, toBE, hq, hd, ih v (n+1+k) (by omega)]

theorem toBE_ofBE (bs : Bytes) : toBE bs.length (ofBE bs) = bs := by
  induction bs with
  | nil => rfl
  | cons b bs ih =>
    have hd : (b.toNat*256^bs.length + ofBE bs)/256^bs.length = b.toNat := by
      rw [Nat.mul_comm, Nat.mul_add_div (Nat.pow_pos (by decide)), Nat.div_eq_of_lt (ofBE_lt bs),
        Nat.add_zero]
    rw [List.length_cons, ofBE, toBE, hd, toBE_add_mul, ih, UInt8.ofNat_toNat]

theorem toBE_succ_append (n v : ℕ) : toBE (n+1) v = toBE n (v/256) ++ [UInt8.ofNat v] := by
  induction n with
  | zero => simp [toBE]
  | succ n ih =>
    have hd : v/256/256^n = v/256^(n+1) := by
      rw [Nat.div_div_eq_div_mul, pow_succ, Nat.mul_comm]
    rw [toBE, ih, toBE, hd, List.cons_append]

end Foundations
