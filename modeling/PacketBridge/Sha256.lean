import PacketBridge.Foundations.BigEndian
import Mathlib.Data.Nat.Digits.Defs

namespace PacketBridge
open Foundations

def kRoundConstants : List UInt32 := [
  0x428a2f98, 0x71374491, 0xb5c0fbcf, 0xe9b5dba5, 0x3956c25b, 0x59f111f1, 0x923f82a4, 0xab1c5ed5,
  0xd807aa98, 0x12835b01, 0x243185be, 0x550c7dc3, 0x72be5d74, 0x80deb1fe, 0x9bdc06a7, 0xc19bf174,
  0xe49b69c1, 0xefbe4786, 0x0fc19dc6, 0x240ca1cc, 0x2de92c6f, 0x4a7484aa, 0x5cb0a9dc, 0x76f988da,
  0x983e5152, 0xa831c66d, 0xb00327c8, 0xbf597fc7, 0xc6e00bf3, 0xd5a79147, 0x06ca6351, 0x14292967,
  0x27b70a85, 0x2e1b2138, 0x4d2c6dfc, 0x53380d13, 0x650a7354, 0x766a0abb, 0x81c2c92e, 0x92722c85,
  0xa2bfe8a1, 0xa81a664b, 0xc24b8b70, 0xc76c51a3, 0xd192e819, 0xd6990624, 0xf40e3585, 0x106aa070,
  0x19a4c116, 0x1e376c08, 0x2748774c, 0x34b0bcb5, 0x391c0cb3, 0x4ed8aa4a, 0x5b9cca4f, 0x682e6ff3,
  0x748f82ee, 0x78a5636f, 0x84c87814, 0x8cc70208, 0x90befffa, 0xa4506ceb, 0xbef9a3f7, 0xc67178f2]

def rotateRight (value bits : UInt32) : UInt32 := (value >>> bits) ||| (value <<< (32-bits))

def choose (x y z : UInt32) : UInt32 := (x &&& y) ^^^ (~~~x &&& z)

def majority (x y z : UInt32) : UInt32 := (x &&& y) ^^^ (x &&& z) ^^^ (y &&& z)

def bigSigma0 (value : UInt32) : UInt32 :=
  rotateRight value 2 ^^^ rotateRight value 13 ^^^ rotateRight value 22

def bigSigma1 (value : UInt32) : UInt32 :=
  rotateRight value 6 ^^^ rotateRight value 11 ^^^ rotateRight value 25

def smallSigma0 (value : UInt32) : UInt32 :=
  rotateRight value 7 ^^^ rotateRight value 18 ^^^ (value >>> 3)

def smallSigma1 (value : UInt32) : UInt32 :=
  rotateRight value 17 ^^^ rotateRight value 19 ^^^ (value >>> 10)

/-- Eight 32-bit words: the hash state, and the working variables `a` to `h` of a block. -/
structure Words where
  a : UInt32
  b : UInt32
  c : UInt32
  d : UInt32
  e : UInt32
  f : UInt32
  g : UInt32
  h : UInt32
  deriving DecidableEq

def Words.toList (w : Words) : List UInt32 := [w.a, w.b, w.c, w.d, w.e, w.f, w.g, w.h]

/-- What touches the 64-byte buffer: a byte stored or loaded at an index, and a call of
`process_block` with the number of bytes filled in. -/
inductive BufferAccess where
  | store (index : ℕ)
  | load (index : ℕ)
  | block (filled : ℕ)
  deriving DecidableEq

/-- The class. `accesses` is no field of it: it records, newest first, how the buffer was used. -/
structure Sha256 where
  state : Words := ⟨0x6a09e667, 0xbb67ae85, 0x3c6ef372, 0xa54ff53a,
    0x510e527f, 0x9b05688c, 0x1f83d9ab, 0x5be0cd19⟩
  buffer : List UInt8 := List.replicate 64 0
  bufferSize : ℕ := 0
  bitCount : UInt64 := 0
  accesses : List BufferAccess := []

namespace Sha256

/-- `words[i]` for `i < 16`: four bytes of the block, big-endian. -/
def blockWord (block : List UInt8) (i : ℕ) : UInt32 :=
  ((block.getD (4*i) 0).toUInt32 <<< 24) ||| ((block.getD (4*i+1) 0).toUInt32 <<< 16) |||
    ((block.getD (4*i+2) 0).toUInt32 <<< 8) ||| (block.getD (4*i+3) 0).toUInt32

/-- One round of the loop that fills `words[16..63]`; `words` holds what is filled so far. -/
def extendWords (words : List UInt32) (i : ℕ) : List UInt32 :=
  words ++ [smallSigma1 (words.getD (i-2) 0) + words.getD (i-7) 0 +
    smallSigma0 (words.getD (i-15) 0) + words.getD (i-16) 0]

def messageWords (block : List UInt8) : List UInt32 :=
  (List.range' 16 48).foldl extendWords ((List.range 16).map (blockWord block))

def compressRound (words : List UInt32) (w : Words) (i : ℕ) : Words :=
  let temp1 := w.h + bigSigma1 w.e + choose w.e w.f w.g + kRoundConstants.getD i 0 +
    words.getD i 0
  let temp2 := bigSigma0 w.a + majority w.a w.b w.c
  ⟨temp1 + temp2, w.a, w.b, w.c, w.d + temp1, w.e, w.f, w.g⟩

def compressBlock (state : Words) (block : List UInt8) : Words :=
  let words := messageWords block
  let w := (List.range 64).foldl (compressRound words) state
  ⟨state.a + w.a, state.b + w.b, state.c + w.c, state.d + w.d,
    state.e + w.e, state.f + w.f, state.g + w.g, state.h + w.h⟩

def blockLoads : List BufferAccess :=
  (List.range 16).flatMap fun i => [.load (4*i), .load (4*i+1), .load (4*i+2), .load (4*i+3)]

def processBlock (s : Sha256) : Sha256 :=
  { s with
    state := compressBlock s.state s.buffer
    accesses := blockLoads.reverse ++ .block s.bufferSize :: s.accesses }

/-- `buffer_[buffer_size_++] = b`. -/
def storeByte (s : Sha256) (b : UInt8) : Sha256 :=
  { s with
    buffer := s.buffer.set s.bufferSize b
    bufferSize := s.bufferSize+1
    accesses := .store s.bufferSize :: s.accesses }

def updateByte (s : Sha256) (b : UInt8) : Sha256 :=
  let s := s.storeByte b
  if s.bufferSize = 64 then { s.processBlock with bufferSize := 0 } else s

def update (s : Sha256) (data : Bytes) : Sha256 :=
  data.foldl updateByte { s with bitCount := s.bitCount + UInt64.ofNat data.length*8 }

/-- `while (buffer_size_ < limit) buffer_[buffer_size_++] = 0`, for at most `fuel` rounds. -/
def fillZeros (limit : ℕ) : ℕ → Sha256 → Sha256
  | 0, s => s
  | fuel+1, s => if s.bufferSize < limit then fillZeros limit fuel (s.storeByte 0) else s

def finish (s : Sha256) : Sha256 :=
  let s := s.storeByte 0x80
  let s :=
    if 56 < s.bufferSize then { (fillZeros 64 64 s).processBlock with bufferSize := 0 } else s
  let s := fillZeros 56 56 s
  let s := ([56, 48, 40, 32, 24, 16, 8, 0] : List UInt64).foldl
    (fun s shift => s.storeByte ((s.bitCount >>> shift) &&& 0xff).toUInt8) s
  s.processBlock

def hexDigit (d : ℕ) : UInt8 := if d < 10 then UInt8.ofNat (48+d) else UInt8.ofNat (87+d)

def toHex (n : ℕ) : Bytes := if n = 0 then [48] else (Nat.digits 16 n).reverse.map hexDigit

def setw (width : ℕ) (text : Bytes) : Bytes := List.replicate (width-text.length) 48 ++ text

def finalHex (s : Sha256) : Bytes :=
  s.finish.state.toList.flatMap fun word => setw 8 (toHex word.toNat)

end Sha256

/-- The pieces that successive reads of up to `size` bytes return. -/
def readBlocks (size : ℕ) : ℕ → Bytes → List Bytes
  | 0, _ => []
  | fuel+1, bs => if bs = [] then [] else bs.take size :: readBlocks size fuel (bs.drop size)

/-- `sha256_file` on a file that can be opened and read, by its content. -/
def sha256File (content : Bytes) : Bytes :=
  ((readBlocks (64*1024) content.length content).foldl Sha256.update {}).finalHex

def isHexDigit (ch : UInt8) : Bool := (48 ≤ ch && ch ≤ 57) || (97 ≤ ch && ch ≤ 102)

def isSha256Hex (value : Bytes) : Bool := value.length == 64 && value.all isHexDigit

end PacketBridge
