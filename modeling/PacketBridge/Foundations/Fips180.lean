import PacketBridge.Foundations.Extent
import Mathlib.Data.Nat.Find
import Mathlib.Data.BitVec

/-! SHA-256 as FIPS 180-4 states it, for messages that are byte strings: the constants (section
4.2.2), the functions (4.1.2), padding and parsing (5.1.1, 5.2.1), the initial hash value (5.3.3)
and the hash computation (6.2). -/
namespace Foundations.Fips180

abbrev Word := BitVec 32

def ch (x y z : Word) : Word := (x &&& y) ^^^ (~~~x &&& z)
def maj (x y z : Word) : Word := (x &&& y) ^^^ (x &&& z) ^^^ (y &&& z)
def bigSigma0 (x : Word) : Word := x.rotateRight 2 ^^^ x.rotateRight 13 ^^^ x.rotateRight 22
def bigSigma1 (x : Word) : Word := x.rotateRight 6 ^^^ x.rotateRight 11 ^^^ x.rotateRight 25
def smallSigma0 (x : Word) : Word := x.rotateRight 7 ^^^ x.rotateRight 18 ^^^ x >>> 3
def smallSigma1 (x : Word) : Word := x.rotateRight 17 ^^^ x.rotateRight 19 ^^^ x >>> 10

def primes : List ℕ := (List.range 312).filter fun p => 2 ≤ p ∧ ∀ d ∈ List.range p, 2 ≤ d → p%d ≠ 0

def floorRoot (r a : ℕ) : ℕ := Nat.findGreatest (fun x => x^r ≤ a) a

/-- The first thirty-two bits of the fractional part of the `r`-th root of `p`. -/
def rootFraction (r p : ℕ) : Word := BitVec.ofNat 32 (floorRoot r (p*2^(32*r)))

def constants : List Word := primes.map (rootFraction 3)

structure State where
  a : Word
  b : Word
  c : Word
  d : Word
  e : Word
  f : Word
  g : Word
  h : Word

def initial : State :=
  let root i := rootFraction 2 (primes.getD i 0)
  ⟨root 0, root 1, root 2, root 3, root 4, root 5, root 6, root 7⟩

def blockWord (block : Bytes) (t : ℕ) : Word := BitVec.ofNat 32 (ofBE (slice block (4*t) 4))

def schedule (block : Bytes) (t : ℕ) : Word :=
  if t < 16 then blockWord block t
  else smallSigma1 (schedule block (t-2)) + schedule block (t-7) +
    smallSigma0 (schedule block (t-15)) + schedule block (t-16)

def round (block : Bytes) (s : State) (t : ℕ) : State :=
  let t1 := s.h + bigSigma1 s.e + ch s.e s.f s.g + constants.getD t 0 + schedule block t
  let t2 := bigSigma0 s.a + maj s.a s.b s.c
  ⟨t1 + t2, s.a, s.b, s.c, s.d + t1, s.e, s.f, s.g⟩

def compress (s : State) (block : Bytes) : State :=
  let w := (List.range 64).foldl (round block) s
  ⟨s.a + w.a, s.b + w.b, s.c + w.c, s.d + w.d, s.e + w.e, s.f + w.f, s.g + w.g, s.h + w.h⟩

def zeroBytes (length : ℕ) : ℕ := (119-length%64)%64

def padded (message : Bytes) : Bytes :=
  message ++ 0x80 :: List.replicate (zeroBytes message.length) 0 ++ toBE 8 (8*message.length)

def blocks (padded : Bytes) : List Bytes :=
  (List.range (padded.length/64)).map fun i => slice padded (64*i) 64

def sha256 (message : Bytes) : Bytes :=
  let s := (blocks (padded message)).foldl compress initial
  [s.a, s.b, s.c, s.d, s.e, s.f, s.g, s.h].flatMap fun w => toBE 4 w.toNat

def hexDigit (d : ℕ) : UInt8 := (ascii "0123456789abcdef").getD d 0

def hexEncode (bs : Bytes) : Bytes :=
  bs.flatMap fun b => [hexDigit (b.toNat/16), hexDigit (b.toNat%16)]

/-- The zero bytes are the fewest that leave room for the 64-bit length in a last full block. -/
theorem zeroBytes_least (length k : ℕ) :
    (length+1+zeroBytes length+8)%64 = 0 ∧ ((length+1+k+8)%64 = 0 → zeroBytes length ≤ k) := by
  unfold zeroBytes
  omega

theorem primes_eq : primes =
    [2, 3, 5, 7, 11, 13, 17, 19, 23, 29, 31, 37, 41, 43, 47, 53, 59, 61, 67, 71, 73, 79, 83, 89,
     97, 101, 103, 107, 109, 113, 127, 131, 137, 139, 149, 151, 157, 163, 167, 173, 179, 181,
     191, 193, 197, 199, 211, 223, 227, 229, 233, 239, 241, 251, 257, 263, 269, 271, 277, 281,
     283, 293, 307, 311] := by
  decide +kernel

theorem floorRoot_eq (r a x : ℕ) (hr : 0 < r) (h1 : x^r ≤ a) (h2 : a < (x+1)^r) :
    floorRoot r a = x := by
  have hxa : x ≤ a := (Nat.le_self_pow hr.ne' x).trans h1
  refine (Nat.findGreatest_eq_iff).mpr ⟨hxa, fun _ => h1, fun {n} hn _ hle => ?_⟩
  have hpow : (x+1)^r ≤ n^r := Nat.pow_le_pow_left hn r
  omega

theorem length_flatten_blocks (bs : List Bytes) (h : ∀ b ∈ bs, b.length = 64) :
    bs.flatten.length = 64*bs.length := by
  induction bs with
  | nil => rfl
  | cons b bs ih =>
    rw [List.flatten_cons, List.length_append, h b List.mem_cons_self,
      ih fun c hc => h c (List.mem_cons_of_mem b hc), List.length_cons]
    ring

/-- Blocks of 64 bytes put together are parsed back into the same blocks. -/
theorem blocks_flatten (bs : List Bytes) (h : ∀ b ∈ bs, b.length = 64) :
    blocks bs.flatten = bs := by
  induction bs with
  | nil => rfl
  | cons b bs ih =>
    have hb := h b List.mem_cons_self
    have hbs : ∀ c ∈ bs, c.length = 64 := fun c hc => h c (List.mem_cons_of_mem b hc)
    have hn : (64+64*bs.length)/64 = bs.length+1 := by omega
    have ih' := ih hbs
    unfold blocks at ih' ⊢
    have hlen := length_flatten_blocks bs hbs
    rw [hlen, Nat.mul_div_cancel_left _ (by decide)] at ih'
    rw [List.flatten_cons, List.length_append, hb, hlen, hn, List.range_succ_eq_map,
      List.map_cons, List.map_map]
    -- the first block, and then the others from behind it
    congr 1
    · rw [slice, Nat.mul_zero, List.drop_zero, ← hb, List.take_left]
    · conv_rhs => rw [← ih']
      apply List.map_congr_left
      intro i _
      simp only [Function.comp_apply, slice]
      rw [show 64*(i+1) = b.length+64*i by rw [hb]; ring, List.drop_append,
        List.drop_eq_nil_of_le (by omega), List.nil_append, Nat.add_sub_cancel_left]

end Foundations.Fips180
