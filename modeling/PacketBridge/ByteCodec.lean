import PacketBridge.Protocol
import PacketBridge.Foundations.Extent

/-! The integer readers and writers that every packet codec carries its own copy of. A read past
the end of the vector is undefined in the source; here it is an error of its own, apart from a
rejected packet. -/
namespace PacketBridge
open Foundations

inductive DecodeError where
  | rejected
  | outOfBounds
  deriving DecidableEq

abbrev Decode := Except DecodeError

/-- `return false` in a decoder, taken when `bad` holds. -/
def rejectIf (bad : Prop) [Decidable bad] : Decode Unit :=
  if bad then .error .rejected else .ok ()

/-- `input[offset]`. -/
def readByte (input : Bytes) (offset : ℕ) : Decode UInt8 :=
  match input[offset]? with
  | some b => .ok b
  | none => .error .outOfBounds

def readLoop {W : Type} (push : W → UInt8 → W) (input : Bytes) : ℕ → W → ℕ → Decode (W × ℕ)
  | 0, value, offset => .ok (value, offset)
  | n+1, value, offset => do
    let b ← readByte input offset
    readLoop push input n (push value b) (offset+1)

def readU16 (input : Bytes) (offset : ℕ) : Decode (UInt16 × ℕ) := do
  let high ← readByte input offset
  let low ← readByte input (offset+1)
  return ((high.toUInt16 <<< 8) ||| low.toUInt16, offset+2)

def readU32 (input : Bytes) (offset : ℕ) : Decode (UInt32 × ℕ) :=
  readLoop (fun value b => (value <<< 8) ||| b.toUInt32) input 4 0 offset

def readU64 (input : Bytes) (offset : ℕ) : Decode (UInt64 × ℕ) :=
  readLoop (fun value b => (value <<< 8) ||| b.toUInt64) input 8 0 offset

def appendU16 (output : Bytes) (value : UInt16) : Bytes :=
  output ++ [((value >>> 8) &&& 0xff).toUInt8, (value &&& 0xff).toUInt8]

def appendU32 (output : Bytes) (value : UInt32) : Bytes :=
  output ++ ([24, 16, 8, 0] : List UInt32).map fun shift => ((value >>> shift) &&& 0xff).toUInt8

def appendU64 (output : Bytes) (value : UInt64) : Bytes :=
  output ++ ([56, 48, 40, 32, 24, 16, 8, 0] : List UInt64).map fun shift =>
    ((value >>> shift) &&& 0xff).toUInt8

@[simp] theorem rejectIf_eq_ok (bad : Prop) [Decidable bad] :
    rejectIf bad = .ok () ↔ ¬ bad := by
  unfold rejectIf
  split <;> simp_all

theorem byte_eq_ofNat (b : UInt8) (n : ℕ) (h : b.toNat = n%256) : b = UInt8.ofNat n := by
  apply UInt8.toNat_inj.mp
  rw [h, UInt8.toNat_ofNat']

theorem appendU16_eq (output : Bytes) (value : UInt16) :
    appendU16 output value = output ++ toBE 2 value.toNat := by
  have hl := value.toNat_lt
  simp only [appendU16, toBE, pow_one, pow_zero, Nat.div_one]
  congr 2
  · apply byte_eq_ofNat
    simp only [UInt16.toNat_toUInt8, UInt16.toNat_and, UInt16.toNat_shiftRight,
      UInt16.reduceToNat, Nat.reduceMod, Nat.shiftRight_eq_div_pow]
    rw [show (255 : ℕ) = 2^8-1 from rfl, Nat.and_two_pow_sub_one_eq_mod]
    omega
  · congr 1
    apply byte_eq_ofNat
    simp only [UInt16.toNat_toUInt8, UInt16.toNat_and, UInt16.reduceToNat]
    rw [show (255 : ℕ) = 2^8-1 from rfl, Nat.and_two_pow_sub_one_eq_mod]
    omega

theorem u32_byte_eq (value shift : UInt32) (k : ℕ) (hk : shift.toNat%32 = 8*k) :
    ((value >>> shift) &&& 0xff).toUInt8 = UInt8.ofNat (value.toNat/256^k) := by
  apply byte_eq_ofNat
  simp only [UInt32.toNat_toUInt8, UInt32.toNat_and, UInt32.toNat_shiftRight, hk,
    UInt32.reduceToNat, Nat.shiftRight_eq_div_pow]
  rw [show (255 : ℕ) = 2^8-1 from rfl, Nat.and_two_pow_sub_one_eq_mod, pow_mul,
    show (2 : ℕ)^8 = 256 from rfl, Nat.mod_mod]

theorem u64_byte_eq (value shift : UInt64) (k : ℕ) (hk : shift.toNat%64 = 8*k) :
    ((value >>> shift) &&& 0xff).toUInt8 = UInt8.ofNat (value.toNat/256^k) := by
  apply byte_eq_ofNat
  simp only [UInt64.toNat_toUInt8, UInt64.toNat_and, UInt64.toNat_shiftRight, hk,
    UInt64.reduceToNat, Nat.shiftRight_eq_div_pow]
  rw [show (255 : ℕ) = 2^8-1 from rfl, Nat.and_two_pow_sub_one_eq_mod, pow_mul,
    show (2 : ℕ)^8 = 256 from rfl, Nat.mod_mod]

theorem appendU32_eq (output : Bytes) (value : UInt32) :
    appendU32 output value = output ++ toBE 4 value.toNat := by
  simp only [appendU32, toBE, List.map_cons, List.map_nil, u32_byte_eq value 24 3 rfl,
    u32_byte_eq value 16 2 rfl, u32_byte_eq value 8 1 rfl, u32_byte_eq value 0 0 rfl]

theorem appendU64_eq (output : Bytes) (value : UInt64) :
    appendU64 output value = output ++ toBE 8 value.toNat := by
  simp only [appendU64, toBE, List.map_cons, List.map_nil, u64_byte_eq value 56 7 rfl,
    u64_byte_eq value 48 6 rfl, u64_byte_eq value 40 5 rfl, u64_byte_eq value 32 4 rfl,
    u64_byte_eq value 24 3 rfl, u64_byte_eq value 16 2 rfl, u64_byte_eq value 8 1 rfl,
    u64_byte_eq value 0 0 rfl]

theorem readByte_of_lt (input : Bytes) (offset : ℕ) (h : offset < input.length) :
    readByte input offset = .ok input[offset] := by
  simp only [readByte, List.getElem?_eq_getElem h]

/-- Inside the vector the loop folds the next `n` bytes and moves the offset behind them. -/
theorem readLoop_eq {W : Type} (push : W → UInt8 → W) (input : Bytes) (n offset : ℕ) (value : W)
    (h : offset+n ≤ input.length) :
    readLoop push input n value offset = .ok ((slice input offset n).foldl push value, offset+n) := by
  induction n generalizing value offset with
  | zero => simp only [readLoop, slice, List.take_zero, List.foldl_nil, Nat.add_zero]
  | succ n ih =>
    have hlt : offset < input.length := by omega
    have hs : slice input offset (n+1) = input[offset] :: slice input (offset+1) n := by
      rw [slice, slice, List.drop_eq_getElem_cons hlt, List.take_succ_cons]
    rw [readLoop, readByte_of_lt input offset hlt, hs, List.foldl_cons]
    change readLoop push input n _ _ = _
    rw [ih _ _ (by omega), Nat.add_right_comm, Nat.add_assoc]

theorem foldl_push {W : Type} (push : W → UInt8 → W) (f : ℕ → W)
    (hf : ∀ x b, push (f x) b = f (x*256 + b.toNat)) (bs : Bytes) (x : ℕ) :
    bs.foldl push (f x) = f (x*256^bs.length + ofBE bs) := by
  induction bs generalizing x with
  | nil => simp only [List.foldl_nil, List.length_nil, pow_zero, Nat.mul_one, ofBE, Nat.add_zero]
  | cons b bs ih =>
    rw [List.foldl_cons, hf, ih, ofBE, List.length_cons, pow_succ]
    congr 1
    ring

theorem u32_push (x : ℕ) (b : UInt8) :
    (UInt32.ofNat x <<< 8) ||| b.toUInt32 = UInt32.ofNat (x*256 + b.toNat) := by
  have hb := b.toNat_lt
  apply UInt32.toNat_inj.mp
  simp only [UInt32.toNat_or, UInt32.toNat_shiftLeft, UInt8.toNat_toUInt32, UInt32.toNat_ofNat',
    UInt32.reduceToNat, Nat.reduceMod, Nat.shiftLeft_eq]
  rw [show x%2^32*2^8%2^32 = (x%2^24)*2^8 by omega, ← Nat.shiftLeft_eq,
    ← Nat.shiftLeft_add_eq_or_of_lt hb, Nat.shiftLeft_eq]
  omega

theorem u64_push (x : ℕ) (b : UInt8) :
    (UInt64.ofNat x <<< 8) ||| b.toUInt64 = UInt64.ofNat (x*256 + b.toNat) := by
  have hb := b.toNat_lt
  apply UInt64.toNat_inj.mp
  simp only [UInt64.toNat_or, UInt64.toNat_shiftLeft, UInt8.toNat_toUInt64, UInt64.toNat_ofNat',
    UInt64.reduceToNat, Nat.reduceMod, Nat.shiftLeft_eq]
  rw [show x%2^64*2^8%2^64 = (x%2^56)*2^8 by omega, ← Nat.shiftLeft_eq,
    ← Nat.shiftLeft_add_eq_or_of_lt hb, Nat.shiftLeft_eq]
  omega

theorem readU32_eq (input : Bytes) (offset : ℕ) (h : offset+4 ≤ input.length) :
    readU32 input offset = .ok (UInt32.ofNat (ofBE (slice input offset 4)), offset+4) := by
  rw [readU32, readLoop_eq _ _ _ _ _ h]
  have hf := foldl_push (fun (value : UInt32) b => (value <<< 8) ||| b.toUInt32) UInt32.ofNat u32_push
    (slice input offset 4) 0
  rw [Nat.zero_mul, Nat.zero_add] at hf
  rw [← hf]
  rfl

theorem readU64_eq (input : Bytes) (offset : ℕ) (h : offset+8 ≤ input.length) :
    readU64 input offset = .ok (UInt64.ofNat (ofBE (slice input offset 8)), offset+8) := by
  rw [readU64, readLoop_eq _ _ _ _ _ h]
  have hf := foldl_push (fun (value : UInt64) b => (value <<< 8) ||| b.toUInt64) UInt64.ofNat u64_push
    (slice input offset 8) 0
  rw [Nat.zero_mul, Nat.zero_add] at hf
  rw [← hf]
  rfl

theorem readU16_eq (input : Bytes) (offset : ℕ) (h : offset+2 ≤ input.length) :
    readU16 input offset = .ok (UInt16.ofNat (ofBE (slice input offset 2)), offset+2) := by
  have hs : slice input offset 2 = [input[offset], input[offset+1]] := by
    rw [slice, List.drop_eq_getElem_cons (by omega), List.take_succ_cons,
      List.drop_eq_getElem_cons (by omega), List.take_succ_cons, List.take_zero]
  rw [readU16, readByte_of_lt _ _ (by omega), readByte_of_lt _ _ (by omega), hs]
  have hb := (input[offset+1]).toNat_lt
  have hv : (input[offset].toUInt16 <<< 8) ||| input[offset+1].toUInt16 =
      UInt16.ofNat (ofBE [input[offset], input[offset+1]]) := by
    apply UInt16.toNat_inj.mp
    simp only [UInt16.toNat_or, UInt16.toNat_shiftLeft, UInt8.toNat_toUInt16, UInt16.toNat_ofNat',
      UInt16.reduceToNat, Nat.reduceMod, Nat.shiftLeft_eq, ofBE, List.length_cons, List.length_nil]
    have ha := (input[offset]).toNat_lt
    rw [Nat.mod_eq_of_lt (show input[offset].toNat*2^8 < 2^16 by omega), ← Nat.shiftLeft_eq,
      ← Nat.shiftLeft_add_eq_or_of_lt hb, Nat.shiftLeft_eq]
    omega
  change Except.ok _ = _
  rw [hv]

@[simp] theorem ok_bind {α β : Type} (a : α) (f : α → Decode β) :
    ((Except.ok a : Decode α) >>= f) = f a := rfl

@[simp] theorem error_bind {α β : Type} (e : DecodeError) (f : α → Decode β) :
    ((Except.error e : Decode α) >>= f) = .error e := rfl

theorem toOption_eq_some {α : Type} (x : Decode α) (a : α) : x.toOption = some a ↔ x = .ok a := by
  cases x with
  | error e => exact iff_of_false (by rintro ⟨⟩) (by rintro ⟨⟩)
  | ok b => exact ⟨fun h => congrArg Except.ok (Option.some.inj h),
      fun h => congrArg some (Except.ok.inj h)⟩

theorem rejectIf_bind {α : Type} (bad : Prop) [Decidable bad] (f : Unit → Decode α) :
    (rejectIf bad >>= f) = if bad then .error .rejected else f () := by
  unfold rejectIf
  split <;> rfl

theorem reject_or {α : Type} (a b : Prop) [Decidable a] [Decidable b] (e x : Decode α) :
    (if a then e else if b then e else x) = if a ∨ b then e else x := by
  by_cases ha : a
  · rw [if_pos ha, if_pos (Or.inl ha)]
  · rw [if_neg ha]
    exact if_congr (by simp only [ha, false_or]) rfl rfl

theorem slice_append_right (a b : Bytes) (off n : ℕ) (h : a.length ≤ off) :
    slice (a ++ b) off n = slice b (off-a.length) n := by
  rw [slice, slice, List.drop_append, List.drop_eq_nil_of_le h, List.nil_append]

theorem slice_append_left (a b : Bytes) (n : ℕ) (h : a.length = n) : slice (a ++ b) 0 n = a := by
  rw [slice, List.drop_zero, List.take_left' h]

theorem slice_self (a : Bytes) (n : ℕ) (h : a.length = n) : slice a 0 n = a := by
  rw [slice, List.drop_zero, ← h, List.take_length]

/-- A vector of at least `n` bytes begins with the big-endian form of the number they make. -/
theorem toBE_ofBE_slice (a : Bytes) (off n : ℕ) (h : off+n ≤ a.length) :
    toBE n (ofBE (slice a off n)) = slice a off n := by
  have ha := toBE_ofBE (slice a off n)
  rwa [length_slice a off n h] at ha

theorem u16_toBE_slice (a : Bytes) (off : ℕ) (h : off+2 ≤ a.length) :
    toBE 2 (UInt16.ofNat (ofBE (slice a off 2))).toNat = slice a off 2 := by
  have hlt := ofBE_lt (slice a off 2)
  rw [length_slice _ _ _ h] at hlt
  rw [UInt16.toNat_ofNat_of_lt' hlt, toBE_ofBE_slice _ _ _ h]

theorem u32_toBE_slice (a : Bytes) (off : ℕ) (h : off+4 ≤ a.length) :
    toBE 4 (UInt32.ofNat (ofBE (slice a off 4))).toNat = slice a off 4 := by
  have hlt := ofBE_lt (slice a off 4)
  rw [length_slice _ _ _ h] at hlt
  rw [UInt32.toNat_ofNat_of_lt' hlt, toBE_ofBE_slice _ _ _ h]

theorem u64_toNat_slice (a : Bytes) (off : ℕ) (h : off+8 ≤ a.length) :
    (UInt64.ofNat (ofBE (slice a off 8))).toNat = ofBE (slice a off 8) := by
  have hlt := ofBE_lt (slice a off 8)
  rw [length_slice _ _ _ h] at hlt
  exact UInt64.toNat_ofNat_of_lt' hlt

theorem u64_toBE_slice (a : Bytes) (off : ℕ) (h : off+8 ≤ a.length) :
    toBE 8 (UInt64.ofNat (ofBE (slice a off 8))).toNat = slice a off 8 := by
  rw [u64_toNat_slice _ _ h, toBE_ofBE_slice _ _ _ h]

theorem slice_append_drop (a : Bytes) (off n : ℕ) :
    slice a off n ++ a.drop (off+n) = a.drop off := by
  rw [slice, ← List.drop_drop, List.take_append_drop]

theorem slice_append_slice (a : Bytes) (off n k : ℕ) :
    slice a off n ++ slice a (off+n) k = slice a off (n+k) := by
  rw [slice, slice, slice, List.take_add, List.drop_drop]

theorem u16_ofBE_toBE (v : UInt16) : UInt16.ofNat (ofBE (toBE 2 v.toNat)) = v := by
  rw [ofBE_toBE_of_lt 2 _ v.toNat_lt, UInt16.ofNat_toNat]

theorem u32_ofBE_toBE (v : UInt32) : UInt32.ofNat (ofBE (toBE 4 v.toNat)) = v := by
  rw [ofBE_toBE_of_lt 4 _ v.toNat_lt, UInt32.ofNat_toNat]

theorem u64_ofBE_toBE (v : UInt64) : UInt64.ofNat (ofBE (toBE 8 v.toNat)) = v := by
  rw [ofBE_toBE_of_lt 8 _ v.toNat_lt, UInt64.ofNat_toNat]

end PacketBridge
