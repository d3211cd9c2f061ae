import PacketBridge.Foundations.BigEndian
import Mathlib.Data.Nat.Digits.Defs
import Mathlib.Data.Nat.Digits.Lemmas
import Mathlib.Data.List.TakeDrop

/-! Delimited records and decimal numbers over byte strings, with the behaviour of the C and C++
standard library: `std::getline` and `strtoull`. -/
namespace Foundations

/-- The records that successive `std::getline(stream, record, d)` calls extract. A last record
without its delimiter counts only when it is not empty. -/
def getlines (d : UInt8) : Bytes → List Bytes
  | [] => []
  | b :: bs =>
    if b = d then [] :: getlines d bs
    else match getlines d bs with
      | [] => [[b]]
      | l :: ls => (b :: l) :: ls

@[simp] theorem getlines_nil (d : UInt8) : getlines d [] = [] := rfl

theorem getlines_delim_cons (d : UInt8) (bs : Bytes) :
    getlines d (d :: bs) = [] :: getlines d bs := by
  simp only [getlines, ↓reduceIte]

/-- A record free of the delimiter is cut off whole. -/
theorem getlines_append_delim (d : UInt8) (l rest : Bytes) (hl : d ∉ l) :
    getlines d (l ++ d :: rest) = l :: getlines d rest := by
  induction l with
  | nil => exact getlines_delim_cons d rest
  | cons b l ih =>
    have hb : b ≠ d := fun h => hl (h ▸ List.mem_cons_self)
    have ht : d ∉ l := fun h => hl (List.mem_cons_of_mem b h)
    simp only [List.cons_append, getlines, hb, ↓reduceIte, ih ht]

theorem getlines_last (d : UInt8) (l : Bytes) (hl : d ∉ l) (hn : l ≠ []) :
    getlines d l = [l] := by
  induction l with
  | nil => exact absurd rfl hn
  | cons b l ih =>
    have hb : b ≠ d := fun h => hl (h ▸ List.mem_cons_self)
    have ht : d ∉ l := fun h => hl (List.mem_cons_of_mem b h)
    cases l with
    | nil => simp only [getlines, hb, ↓reduceIte]
    | cons c l =>
      rw [getlines, if_neg hb, ih ht (List.cons_ne_nil c l)]

/-- A delimiter separates the records before it from those after it, whatever stands there. -/
theorem getlines_append (d : UInt8) (a rest : Bytes) :
    getlines d (a ++ d :: rest) = getlines d (a ++ [d]) ++ getlines d rest := by
  induction a with
  | nil => simp only [List.nil_append, getlines_delim_cons, getlines_nil, List.cons_append]
  | cons b a ih =>
    by_cases hb : b = d
    · subst hb
      simp only [List.cons_append, getlines_delim_cons, ih]
    · have hne : getlines d (a ++ [d]) ≠ [] := by
        cases a with
        | nil => simp only [List.nil_append, getlines_delim_cons, getlines_nil, ne_eq,
            List.cons_ne_nil, not_false_eq_true]
        | cons c a =>
          simp only [List.cons_append, getlines]
          split
          · exact List.cons_ne_nil _ _
          · split <;> exact List.cons_ne_nil _ _
      obtain ⟨l, ls, hls⟩ := List.exists_cons_of_ne_nil hne
      simp only [List.cons_append, getlines, hb, ↓reduceIte, ih, hls]

/-- The records are what stands between the delimiters, except that an empty one at the end is
lost. -/
theorem splitOn_eq_getlines (d : UInt8) (bs : Bytes) :
    bs.splitOn d = getlines d bs ∨ bs.splitOn d = getlines d bs ++ [[]] := by
  induction bs with
  | nil => exact Or.inr (List.splitOn_nil d)
  | cons b bs ih =>
    rw [List.splitOn_cons_eq_if_modifyHead]
    by_cases hb : b = d
    · subst hb
      rw [if_pos (beq_self_eq_true b), getlines_delim_cons]
      exact ih.imp (congrArg _) (congrArg _)
    · have hne : (b == d) = false := beq_false_of_ne hb
      simp only [getlines, hb, hne, Bool.false_eq_true, ↓reduceIte]
      cases hls : getlines d bs with
      | nil =>
        rw [hls] at ih
        left
        rcases ih with h | h
        · exact absurd h (List.splitOn_ne_nil d bs)
        · rw [h]
          rfl
      | cons l ls =>
        rw [hls] at ih
        rcases ih with h | h
        · left
          rw [h]
          rfl
        · right
          rw [h]
          rfl

/-- A text is its records with delimiters between them, and perhaps one more at the end. -/
theorem intercalate_getlines (d : UInt8) (bs : Bytes) :
    bs = [d].intercalate (getlines d bs) ∨ bs = [d].intercalate (getlines d bs ++ [[]]) := by
  have hsplit : [d].intercalate (bs.splitOn d) = bs := List.intercalate_splitOn d
  rcases splitOn_eq_getlines d bs with h | h
  · left
    rw [← h, hsplit]
  · right
    rw [← h, hsplit]

/-- No record holds the delimiter. -/
theorem not_mem_of_mem_getlines (d : UInt8) (bs l : Bytes) (hl : l ∈ getlines d bs) : d ∉ l := by
  induction bs generalizing l with
  | nil => simp only [getlines_nil, List.not_mem_nil] at hl
  | cons b bs ih =>
    by_cases hb : b = d
    · subst hb
      rw [getlines_delim_cons, List.mem_cons] at hl
      rcases hl with rfl | hl
      · exact List.not_mem_nil
      · exact ih l hl
    · simp only [getlines, hb, ↓reduceIte] at hl
      split at hl
      · rw [List.mem_singleton] at hl
        subst hl
        simpa only [List.mem_singleton] using Ne.symm hb
      · rename_i l' ls hls
        rcases List.mem_cons.mp hl with rfl | hl
        · have hl' := ih l' (by rw [hls]; exact List.mem_cons_self)
          simp only [List.mem_cons, not_or]
          exact ⟨Ne.symm hb, hl'⟩
        · exact ih l (by rw [hls]; exact List.mem_cons_of_mem _ hl)

/-- `bs` begins with `p`, as `bs.find(p) == 0` asks. -/
def startsWith (p bs : Bytes) : Bool := p.isPrefixOf bs

theorem startsWith_append (p bs : Bytes) : startsWith p (p ++ bs) = true :=
  List.isPrefixOf_iff_prefix.mpr (List.prefix_append p bs)

/-- Behind `q` nothing begins with `p`, when the two differ before the shorter one ends. -/
theorem not_startsWith_append {p q : Bytes} (bs : Bytes) (h : p.take q.length ≠ q.take p.length) :
    ¬ startsWith p (q ++ bs) = true := by
  intro hp
  obtain ⟨rest, hrest⟩ := List.isPrefixOf_iff_prefix.mp hp
  apply h
  rcases le_total p.length q.length with hle | hle
  · have htake := congrArg (List.take p.length) hrest
    rw [List.take_left, List.take_append_of_le_length hle] at htake
    rw [List.take_of_length_le hle, ← htake]
  · have htake := congrArg (List.take q.length) hrest
    rw [List.take_left, List.take_append_of_le_length hle] at htake
    rw [List.take_of_length_le hle, htake]

def ofDecimal (bs : Bytes) : ℕ := bs.foldl (fun v b => v*10 + (b.toNat-48)) 0

def toDecimal (n : ℕ) : Bytes :=
  if n = 0 then [48] else (Nat.digits 10 n).reverse.map fun d => UInt8.ofNat (48+d)

def isDigit (b : UInt8) : Bool := 48 ≤ b && b ≤ 57

def isSpace (b : UInt8) : Bool := b == 32 || (9 ≤ b && b ≤ 13)

/-- `std::stoull`: leading white space and one sign are skipped, the digits up to the first other
byte are read. `none` stands for the exception: no digits, or a value past 64 bits. -/
def stoull (bs : Bytes) : Option UInt64 :=
  let trimmed := bs.dropWhile isSpace
  let negative := trimmed.head? == some 45
  let unsigned := if negative || trimmed.head? == some 43 then trimmed.tail else trimmed
  let digits := unsigned.takeWhile isDigit
  let value := ofDecimal digits
  if digits = [] ∨ 2^64 ≤ value then none
  else if negative then some (0 - UInt64.ofNat value)
  else some (UInt64.ofNat value)

theorem isDigit_ofNat_add (d : ℕ) (hd : d < 10) : isDigit (UInt8.ofNat (48+d)) = true := by
  interval_cases d <;> decide

theorem toNat_ofNat_digit (d : ℕ) (hd : d < 10) : (UInt8.ofNat (48+d)).toNat-48 = d := by
  rw [UInt8.toNat_ofNat']
  omega

theorem isDigit_of_mem_toDecimal (n : ℕ) (b : UInt8) (hb : b ∈ toDecimal n) :
    isDigit b = true := by
  unfold toDecimal at hb
  split at hb
  · rw [List.mem_singleton] at hb
    subst hb
    decide
  · obtain ⟨d, hd, rfl⟩ := List.mem_map.mp hb
    exact isDigit_ofNat_add d (Nat.digits_lt_base (by decide) (List.mem_reverse.mp hd))

theorem toDecimal_ne_nil (n : ℕ) : toDecimal n ≠ [] := by
  unfold toDecimal
  split
  · exact List.cons_ne_nil _ _
  · simpa only [ne_eq, List.map_eq_nil_iff, List.reverse_eq_nil_iff,
      Nat.digits_eq_nil_iff_eq_zero]

theorem foldl_digits (ds : List ℕ) (hd : ∀ d ∈ ds, d < 10) :
    ((ds.reverse.map fun d => UInt8.ofNat (48+d)).foldl (fun v b => v*10 + (b.toNat-48)) 0) =
      Nat.ofDigits 10 ds := by
  induction ds with
  | nil => rfl
  | cons d ds ih =>
    have ih' := ih fun e he => hd e (List.mem_cons_of_mem d he)
    rw [List.reverse_cons, List.map_append, List.foldl_append, ih', Nat.ofDigits_cons]
    simp only [List.map_cons, List.map_nil, List.foldl_cons, List.foldl_nil,
      toNat_ofNat_digit d (hd d List.mem_cons_self)]
    omega

theorem ofDecimal_toDecimal (n : ℕ) : ofDecimal (toDecimal n) = n := by
  unfold toDecimal ofDecimal
  split
  · subst n
    rfl
  · rw [foldl_digits _ fun d hd => Nat.digits_lt_base (by decide) hd, Nat.ofDigits_digits]

theorem isSpace_of_isDigit (b : UInt8) (hb : isDigit b = true) : isSpace b = false := by
  simp only [isDigit, isSpace, Bool.and_eq_true, decide_eq_true_eq, UInt8.le_iff_toNat_le,
    Bool.or_eq_false_iff, beq_eq_false_iff_ne, ne_eq, ← UInt8.toNat_inj, Bool.and_eq_false_iff,
    decide_eq_false_iff_not, UInt8.reduceToNat] at hb ⊢
  omega

/-- The digits alone decide what `stoull` reads when nothing precedes them. -/
theorem stoull_digits_eq (ds rest : Bytes) (hds : ∀ b ∈ ds, isDigit b = true) (hn : ds ≠ [])
    (hr : ∀ b ∈ rest.head?, isDigit b = false) : stoull (ds ++ rest) =
      if 2^64 ≤ ofDecimal ds then none else some (UInt64.ofNat (ofDecimal ds)) := by
  obtain ⟨b, ds', rfl⟩ := List.exists_cons_of_ne_nil hn
  have hb := hds b List.mem_cons_self
  have hsign : b ≠ 45 ∧ b ≠ 43 := by
    constructor <;> rintro rfl <;> exact absurd hb (by decide)
  have htrim : ((b :: ds') ++ rest).dropWhile isSpace = (b :: ds') ++ rest := by
    simp only [List.cons_append, List.dropWhile_cons, isSpace_of_isDigit b hb, Bool.false_eq_true,
      ↓reduceIte]
  have htake : ((b :: ds') ++ rest).takeWhile isDigit = b :: ds' := by
    rw [List.takeWhile_append_of_pos hds]
    cases rest with
    | nil => rw [List.takeWhile_nil, List.append_nil]
    | cons c rest =>
      rw [List.takeWhile_cons, hr c rfl]
      simp only [Bool.false_eq_true, ↓reduceIte, List.append_nil]
  have hneg : (((b :: ds') ++ rest).head? == some 45) = false := by
    simpa using hsign.1
  have hpos : (((b :: ds') ++ rest).head? == some 43) = false := by
    simpa using hsign.2
  simp only [stoull, htrim, hneg, hpos, Bool.or_self, Bool.false_eq_true, ↓reduceIte, htake,
    reduceCtorEq, false_or]

theorem stoull_digits (ds rest : Bytes) (hds : ∀ b ∈ ds, isDigit b = true) (hn : ds ≠ [])
    (hr : ∀ b ∈ rest.head?, isDigit b = false) (hv : ofDecimal ds < 2^64) :
    stoull (ds ++ rest) = some (UInt64.ofNat (ofDecimal ds)) := by
  rw [stoull_digits_eq ds rest hds hn hr, if_neg (not_le.mpr hv)]

theorem stoull_toDecimal (n : ℕ) (hn : n < 2^64) : stoull (toDecimal n) = some (UInt64.ofNat n) := by
  have h := stoull_digits (toDecimal n) [] (isDigit_of_mem_toDecimal n) (toDecimal_ne_nil n)
    (by simp only [List.head?_nil, Option.mem_def, reduceCtorEq, false_implies, implies_true])
    (by rw [ofDecimal_toDecimal]; exact hn)
  rwa [List.append_nil, ofDecimal_toDecimal] at h

/-- The records of a text that is cut off after `k` bytes: the first one whole or in part, and what
is left of the others. -/
theorem getlines_take (d : UInt8) (l rest : Bytes) (hl : d ∉ l) (k : ℕ) :
    getlines d ((l ++ d :: rest).take k) =
      if l.length < k then l :: getlines d (rest.take (k-(l.length+1)))
      else if k = 0 then [] else getlines d (l.take k) := by
  by_cases hk : l.length < k
  · obtain ⟨j, rfl⟩ : ∃ j, k = l.length+(j+1) := ⟨k-(l.length+1), by omega⟩
    rw [if_pos hk, List.take_length_add_append, List.take_succ_cons, getlines_append_delim d l _ hl]
    congr 3
    omega
  · rw [if_neg hk, List.take_append_of_le_length (not_lt.mp hk)]
    split
    · rename_i h0
      rw [h0, List.take_zero, getlines_nil]
    · rfl

theorem foldl_decimal (bs : Bytes) (v : ℕ) :
    bs.foldl (fun v b => v*10 + (b.toNat-48)) v = v*10^bs.length + ofDecimal bs := by
  induction bs generalizing v with
  | nil => simp only [List.foldl_nil, List.length_nil, pow_zero, Nat.mul_one, ofDecimal,
      Nat.add_zero]
  | cons b bs ih =>
    have hcons : ofDecimal (b :: bs) = (b.toNat-48)*10^bs.length + ofDecimal bs := by
      rw [ofDecimal, List.foldl_cons, ih, Nat.zero_mul, Nat.zero_add]
    rw [List.foldl_cons, ih, hcons, List.length_cons, pow_succ]
    ring

theorem ofDecimal_append (a b : Bytes) :
    ofDecimal (a ++ b) = ofDecimal a*10^b.length + ofDecimal b := by
  rw [ofDecimal, List.foldl_append, foldl_decimal, ← ofDecimal]

theorem toDecimal_zero : toDecimal 0 = [48] := if_pos rfl

/-- Some but not all digits of a number make a smaller one. -/
theorem ofDecimal_take_lt (n i : ℕ) (h0 : 0 < i) (hi : i < (toDecimal n).length) :
    ofDecimal ((toDecimal n).take i) < n := by
  have hpos : 0 < n := by
    apply Nat.pos_of_ne_zero
    rintro rfl
    rw [toDecimal_zero, List.length_singleton] at hi
    omega
  have hsplit := ofDecimal_append ((toDecimal n).take i) ((toDecimal n).drop i)
  rw [List.take_append_drop, ofDecimal_toDecimal] at hsplit
  obtain ⟨j, hj⟩ : ∃ j, ((toDecimal n).drop i).length = j+1 :=
    ⟨(toDecimal n).length-i-1, by rw [List.length_drop]; omega⟩
  rw [hj, pow_succ] at hsplit
  have hpow : 1 ≤ 10^j := Nat.one_le_pow _ _ (by decide)
  have hle : ofDecimal ((toDecimal n).take i)*10 ≤ n := by
    calc ofDecimal ((toDecimal n).take i)*10
        ≤ ofDecimal ((toDecimal n).take i)*(10^j*10) := Nat.mul_le_mul_left _ (by omega)
      _ ≤ n := by omega
  omega

/-- The first digits of a number are read as a number. -/
theorem stoull_take (n i : ℕ) (hn : n < 2^64) (h0 : 0 < i) :
    stoull ((toDecimal n).take i) = some (UInt64.ofNat (ofDecimal ((toDecimal n).take i))) := by
  have hle : ofDecimal ((toDecimal n).take i) ≤ n := by
    by_cases hi : i < (toDecimal n).length
    · exact (ofDecimal_take_lt n i h0 hi).le
    · rw [List.take_of_length_le (not_lt.mp hi), ofDecimal_toDecimal]
  have hne : (toDecimal n).take i ≠ [] := by
    rw [ne_eq, List.take_eq_nil_iff, not_or]
    exact ⟨by omega, toDecimal_ne_nil n⟩
  have h := stoull_digits ((toDecimal n).take i) []
    (fun b hb => isDigit_of_mem_toDecimal n b (List.mem_of_mem_take hb)) hne
    (by simp only [List.head?_nil, Option.mem_def, reduceCtorEq, false_implies, implies_true])
    (hle.trans_lt hn)
  rwa [List.append_nil] at h

end Foundations
