import PacketBridge.Sha256
import PacketBridge.ByteCodec
import PacketBridge.Foundations.Fips180
import Mathlib.Data.List.GetD

namespace PacketBridge
open Foundations

def Words.toState (w : Words) : Fips180.State :=
  ⟨w.a.toBitVec, w.b.toBitVec, w.c.toBitVec, w.d.toBitVec,
    w.e.toBitVec, w.f.toBitVec, w.g.toBitVec, w.h.toBitVec⟩

theorem rotateRight_toBitVec (value bits : UInt32) (n : ℕ) (hb : bits.toNat = n) (h0 : 0 < n)
    (h : n < 32) : (rotateRight value bits).toBitVec = value.toBitVec.rotateRight n := by
  have h32 : (32 : UInt32).toNat = 32 := rfl
  have hr : bits.toNat%32 = n := by omega
  have hl : (32-bits).toNat%32 = 32-n := by
    rw [UInt32.toNat_sub_of_le _ _ (by rw [UInt32.le_iff_toNat_le, h32]; omega), h32]
    omega
  apply BitVec.eq_of_toNat_eq
  rw [BitVec.toNat_rotateRight, Nat.mod_eq_of_lt h]
  change (rotateRight value bits).toNat = _
  rw [rotateRight, UInt32.toNat_or, UInt32.toNat_shiftRight, UInt32.toNat_shiftLeft, hr, hl]
  rfl

theorem choose_toBitVec (x y z : UInt32) :
    (choose x y z).toBitVec = Fips180.ch x.toBitVec y.toBitVec z.toBitVec := rfl

theorem majority_toBitVec (x y z : UInt32) :
    (majority x y z).toBitVec = Fips180.maj x.toBitVec y.toBitVec z.toBitVec := rfl

theorem bigSigma0_toBitVec (x : UInt32) :
    (bigSigma0 x).toBitVec = Fips180.bigSigma0 x.toBitVec := by
  rw [bigSigma0, UInt32.toBitVec_xor, UInt32.toBitVec_xor,
    rotateRight_toBitVec x 2 2 rfl (by decide) (by decide),
    rotateRight_toBitVec x 13 13 rfl (by decide) (by decide),
    rotateRight_toBitVec x 22 22 rfl (by decide) (by decide), Fips180.bigSigma0]

theorem bigSigma1_toBitVec (x : UInt32) :
    (bigSigma1 x).toBitVec = Fips180.bigSigma1 x.toBitVec := by
  rw [bigSigma1, UInt32.toBitVec_xor, UInt32.toBitVec_xor,
    rotateRight_toBitVec x 6 6 rfl (by decide) (by decide),
    rotateRight_toBitVec x 11 11 rfl (by decide) (by decide),
    rotateRight_toBitVec x 25 25 rfl (by decide) (by decide), Fips180.bigSigma1]

theorem smallSigma0_toBitVec (x : UInt32) :
    (smallSigma0 x).toBitVec = Fips180.smallSigma0 x.toBitVec := by
  rw [smallSigma0, UInt32.toBitVec_xor, UInt32.toBitVec_xor,
    rotateRight_toBitVec x 7 7 rfl (by decide) (by decide),
    rotateRight_toBitVec x 18 18 rfl (by decide) (by decide), Fips180.smallSigma0]
  rfl

theorem smallSigma1_toBitVec (x : UInt32) :
    (smallSigma1 x).toBitVec = Fips180.smallSigma1 x.toBitVec := by
  rw [smallSigma1, UInt32.toBitVec_xor, UInt32.toBitVec_xor,
    rotateRight_toBitVec x 17 17 rfl (by decide) (by decide),
    rotateRight_toBitVec x 19 19 rfl (by decide) (by decide), Fips180.smallSigma1]
  rfl

/-- A 32-bit constant is the fraction of a root when it lies between the two powers. -/
theorem rootFraction_eq (r p c : ℕ) (k : UInt32) (hr : 0 < r)
    (h1 : (c*2^32+k.toNat)^r ≤ p*2^(32*r)) (h2 : p*2^(32*r) < (c*2^32+k.toNat+1)^r) :
    Fips180.rootFraction r p = k.toBitVec := by
  rw [Fips180.rootFraction, Fips180.floorRoot_eq r _ _ hr h1 h2]
  apply BitVec.eq_of_toNat_eq
  rw [BitVec.toNat_ofNat, Nat.mul_add_mod_self_right]
  exact Nat.mod_eq_of_lt k.toNat_lt

/-- The table of the source holds the cube-root fractions of the first sixty-four primes. -/
theorem kRoundConstants_eq (t : ℕ) (ht : t < 64) :
    Fips180.constants.getD t 0 = (kRoundConstants.getD t 0).toBitVec := by
  have hlen : Fips180.primes.length = 64 := by
    rw [Fips180.primes_eq]
    rfl
  have hroots : ∀ t < 64, ∃ c < 7,
      (c*2^32+(kRoundConstants.getD t 0).toNat)^3 ≤ Fips180.primes.getD t 0*2^(32*3) ∧
      Fips180.primes.getD t 0*2^(32*3) < (c*2^32+(kRoundConstants.getD t 0).toNat+1)^3 := by
    rw [Fips180.primes_eq]
    decide +kernel
  obtain ⟨c, _, h1, h2⟩ := hroots t ht
  rw [← rootFraction_eq 3 _ c _ (by decide) h1 h2, Fips180.constants,
    List.getD_eq_getElem _ _ (by rw [List.length_map, hlen]; exact ht),
    List.getD_eq_getElem _ _ (by rw [hlen]; exact ht), List.getElem_map]

/-- The initial state holds the square-root fractions of the first eight primes. -/
theorem initial_eq : ({} : Sha256).state.toState = Fips180.initial := by
  have hroots : ∀ t < 8, ∃ c < 5,
      (c*2^32+((({} : Sha256).state.toList).getD t 0).toNat)^2 ≤
        Fips180.primes.getD t 0*2^(32*2) ∧
      Fips180.primes.getD t 0*2^(32*2) <
        (c*2^32+((({} : Sha256).state.toList).getD t 0).toNat+1)^2 := by
    rw [Fips180.primes_eq]
    decide +kernel
  have hroot (t : ℕ) (ht : t < 8) : Fips180.rootFraction 2 (Fips180.primes.getD t 0) =
      ((({} : Sha256).state.toList).getD t 0).toBitVec := by
    obtain ⟨c, _, h1, h2⟩ := hroots t ht
    exact rootFraction_eq 2 _ c _ (by decide) h1 h2
  simp only [Fips180.initial, hroot 0 (by decide), hroot 1 (by decide), hroot 2 (by decide),
    hroot 3 (by decide), hroot 4 (by decide), hroot 5 (by decide), hroot 6 (by decide),
    hroot 7 (by decide)]
  rfl

namespace Sha256

/-- Four bytes shifted into place and joined are their big-endian number. -/
theorem shifted_bytes_eq (p q r s : UInt8) :
    (p.toUInt32 <<< 24) ||| (q.toUInt32 <<< 16) ||| (r.toUInt32 <<< 8) ||| s.toUInt32 =
      UInt32.ofNat (ofBE [p, q, r, s]) := by
  have hp := p.toNat_lt
  have hq := q.toNat_lt
  have hr := r.toNat_lt
  have hs := s.toNat_lt
  have h1 : r.toNat <<< 8 ||| s.toNat = r.toNat*256+s.toNat := by
    rw [← Nat.shiftLeft_add_eq_or_of_lt hs, Nat.shiftLeft_eq]
  have h2 : q.toNat <<< 16 ||| (r.toNat*256+s.toNat) = q.toNat*65536+(r.toNat*256+s.toNat) := by
    rw [← Nat.shiftLeft_add_eq_or_of_lt (by omega), Nat.shiftLeft_eq]
  have h3 : p.toNat <<< 24 ||| (q.toNat*65536+(r.toNat*256+s.toNat)) =
      p.toNat*16777216+(q.toNat*65536+(r.toNat*256+s.toNat)) := by
    rw [← Nat.shiftLeft_add_eq_or_of_lt (by omega), Nat.shiftLeft_eq]
  apply UInt32.toNat_inj.mp
  simp only [UInt32.toNat_or, UInt32.toNat_shiftLeft, UInt8.toNat_toUInt32, UInt32.toNat_ofNat',
    UInt32.reduceToNat, Nat.reduceMod, ofBE, List.length_cons, List.length_nil]
  rw [Nat.or_assoc, Nat.or_assoc,
    Nat.mod_eq_of_lt (show p.toNat <<< 24 < 2^32 by rw [Nat.shiftLeft_eq]; omega),
    Nat.mod_eq_of_lt (show q.toNat <<< 16 < 2^32 by rw [Nat.shiftLeft_eq]; omega),
    Nat.mod_eq_of_lt (show r.toNat <<< 8 < 2^32 by rw [Nat.shiftLeft_eq]; omega), h1, h2, h3]
  omega

theorem blockWord_toBitVec (block : Bytes) (t : ℕ) (h : 4*t+4 ≤ block.length) :
    (blockWord block t).toBitVec = Fips180.blockWord block t := by
  have hs : slice block (4*t) 4 =
      [block[4*t], block[4*t+1], block[4*t+2], block[4*t+3]] := by
    rw [slice, List.drop_eq_getElem_cons (by omega), List.take_succ_cons,
      List.drop_eq_getElem_cons (by omega), List.take_succ_cons,
      List.drop_eq_getElem_cons (by omega), List.take_succ_cons,
      List.drop_eq_getElem_cons (by omega), List.take_succ_cons, List.take_zero]
  rw [blockWord, List.getD_eq_getElem _ _ (by omega), List.getD_eq_getElem _ _ (by omega),
    List.getD_eq_getElem _ _ (by omega), List.getD_eq_getElem _ _ (by omega), shifted_bytes_eq,
    Fips180.blockWord, hs]
  rfl

theorem extendWords_schedule (block : Bytes) (h : block.length = 64) (n : ℕ) :
    ((List.range' 16 n).foldl extendWords ((List.range 16).map (blockWord block))).length = 16+n ∧
    ∀ t < 16+n, (((List.range' 16 n).foldl extendWords
      ((List.range 16).map (blockWord block))).getD t 0).toBitVec = Fips180.schedule block t := by
  induction n with
  | zero =>
    refine ⟨by simp, fun t ht => ?_⟩
    simp only [List.range'_zero, List.foldl_nil]
    rw [List.getD_eq_getElem _ _ (by simpa using ht), List.getElem_map, List.getElem_range,
      blockWord_toBitVec block t (by omega), Fips180.schedule, if_pos ht]
  | succ n ih =>
    obtain ⟨hlen, hget⟩ := ih
    rw [List.range'_concat, List.foldl_append, Nat.one_mul, List.foldl_cons, List.foldl_nil]
    generalize hw : (List.range' 16 n).foldl extendWords
      ((List.range 16).map (blockWord block)) = words at hlen hget
    refine ⟨by rw [extendWords, List.length_append, hlen]; rfl, fun t ht => ?_⟩
    by_cases htn : t < 16+n
    · rw [extendWords, List.getD_append _ _ _ _ (by omega)]
      exact hget t htn
    · obtain rfl : t = 16+n := by omega
      rw [extendWords, List.getD_append_right _ _ _ _ (by omega), hlen, Nat.sub_self,
        List.getD_cons_zero, Fips180.schedule, if_neg (by omega)]
      simp only [UInt32.toBitVec_add, smallSigma0_toBitVec, smallSigma1_toBitVec,
        hget (16+n-2) (by omega), hget (16+n-7) (by omega), hget (16+n-15) (by omega),
        hget (16+n-16) (by omega)]

theorem compressRound_toState (block : Bytes) (h : block.length = 64) (w : Words) (t : ℕ)
    (ht : t < 64) : (compressRound (messageWords block) w t).toState =
      Fips180.round block w.toState t := by
  have hw : ((messageWords block).getD t 0).toBitVec = Fips180.schedule block t :=
    (extendWords_schedule block h 48).2 t (by omega)
  simp only [compressRound, Words.toState, Fips180.round, UInt32.toBitVec_add, choose_toBitVec,
    majority_toBitVec, bigSigma0_toBitVec, bigSigma1_toBitVec, hw, kRoundConstants_eq t ht]

theorem compressRounds_toState (block : Bytes) (h : block.length = 64) (w : Words) (n : ℕ)
    (hn : n ≤ 64) : ((List.range n).foldl (compressRound (messageWords block)) w).toState =
      (List.range n).foldl (Fips180.round block) w.toState := by
  induction n with
  | zero => rfl
  | succ n ih =>
    rw [List.range_succ, List.foldl_append, List.foldl_append, List.foldl_cons, List.foldl_nil,
      List.foldl_cons, List.foldl_nil, compressRound_toState block h _ n (by omega),
      ih (by omega)]

/-- `process_block` computes the next intermediate hash value. -/
theorem compressBlock_toState (state : Words) (block : Bytes) (h : block.length = 64) :
    (compressBlock state block).toState = Fips180.compress state.toState block := by
  have hw := compressRounds_toState block h state 64 le_rfl
  simp only [Fips180.compress, ← hw]
  rfl

end Sha256

end PacketBridge
