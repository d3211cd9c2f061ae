import PacketBridge.Sha256Compress
import Mathlib.Tactic.IntervalCases

/-! The streaming class computes the digest of everything it was given, however the bytes were cut
into `update` calls, and stays inside its buffer. -/
namespace PacketBridge
open Foundations
attribute [local irreducible] Fips180.initial Fips180.compress Sha256.compressBlock

/-- The access is inside the 64-byte buffer; a block is compressed only when it is full. -/
def BufferAccess.Proper : BufferAccess → Prop
  | .store i => i < 64
  | .load i => i < 64
  | .block n => n = 64

namespace Sha256

/-- The state after the blocks `done`, with the bytes `pend` waiting in the buffer. -/
structure Absorbed (s : Sha256) (done : List Bytes) (pend : Bytes) : Prop where
  blocks : ∀ b ∈ done, b.length = 64
  state : s.state.toState = done.foldl Fips180.compress Fips180.initial
  size : s.bufferSize = pend.length
  room : pend.length ≤ 64
  bufferLength : s.buffer.length = 64
  buffer : s.buffer.take pend.length = pend
  accesses : ∀ a ∈ s.accesses, a.Proper

theorem initial_absorbed : Absorbed {} [] [] := by
  refine ⟨by simp, ?_, rfl, Nat.zero_le 64, List.length_replicate, rfl, by simp⟩
  rw [List.foldl_nil]
  exact initial_eq

theorem storeByte_absorbed {s : Sha256} {done : List Bytes} {pend : Bytes}
    (h : Absorbed s done pend) (hr : pend.length < 64) (b : UInt8) :
    Absorbed (s.storeByte b) done (pend ++ [b]) := by
  refine ⟨h.blocks, h.state, ?_, ?_, ?_, ?_, ?_⟩
  · simp only [storeByte, h.size, List.length_append, List.length_singleton]
  · simp only [List.length_append, List.length_singleton]
    omega
  · simp only [storeByte, List.length_set, h.bufferLength]
  · have hlt : pend.length < s.buffer.length := by rw [h.bufferLength]; exact hr
    have hb := h.buffer
    simp only [storeByte, h.size, List.length_append, List.length_singleton]
    rw [List.take_add_one, List.take_set_of_le (le_refl _), hb, List.getElem?_set_self hlt]
    rfl
  · intro a ha
    rcases List.mem_cons.mp ha with rfl | ha
    · simpa only [BufferAccess.Proper, h.size] using hr
    · exact h.accesses a ha

@[simp] theorem processBlock_buffer (s : Sha256) : s.processBlock.buffer = s.buffer := by
  rw [processBlock]

@[simp] theorem processBlock_bitCount (s : Sha256) : s.processBlock.bitCount = s.bitCount := by
  rw [processBlock]

@[simp] theorem storeByte_bitCount (s : Sha256) (b : UInt8) :
    (s.storeByte b).bitCount = s.bitCount := by
  rw [storeByte]

theorem blockLoads_proper : ∀ a ∈ blockLoads, a.Proper := by
  intro a ha
  obtain ⟨i, hi, ha⟩ := List.mem_flatMap.mp ha
  have hi' := List.mem_range.mp hi
  simp only [List.mem_cons, List.not_mem_nil, or_false] at ha
  rcases ha with rfl | rfl | rfl | rfl <;> simp only [BufferAccess.Proper] <;> omega

/-- A full buffer becomes one more block. -/
theorem processBlock_absorbed {s : Sha256} {done : List Bytes} {pend : Bytes}
    (h : Absorbed s done pend) (hf : pend.length = 64) :
    Absorbed { s.processBlock with bufferSize := 0 } (done ++ [pend]) [] ∧
      ∀ a ∈ s.processBlock.accesses, a.Proper := by
  have hbuf : s.buffer = pend := by
    have hb := h.buffer
    rwa [hf, ← h.bufferLength, List.take_length] at hb
  have hacc : ∀ a ∈ s.processBlock.accesses, a.Proper := by
    intro a ha
    simp only [processBlock, List.mem_append, List.mem_reverse, List.mem_cons] at ha
    rcases ha with ha | rfl | ha
    · exact blockLoads_proper a ha
    · exact h.size.trans hf
    · exact h.accesses a ha
  refine ⟨⟨?_, ?_, rfl, Nat.zero_le 64, ?_, rfl, hacc⟩, hacc⟩
  · intro b hb
    rcases List.mem_append.mp hb with hb | hb
    · exact h.blocks b hb
    · rw [List.mem_singleton.mp hb, hf]
  · rw [List.foldl_append, List.foldl_cons, List.foldl_nil, ← h.state, ← hbuf,
      ← compressBlock_toState s.state s.buffer h.bufferLength]
    rfl
  · rw [processBlock_buffer, h.bufferLength]

/-- The bytes `message` have been taken in, less than a block of them still waiting. -/
def Absorbs (s : Sha256) (message : Bytes) : Prop :=
  ∃ done pend, Absorbed s done pend ∧ pend.length < 64 ∧ done.flatten ++ pend = message

theorem updateByte_absorbs {s : Sha256} {message : Bytes} (h : Absorbs s message) (b : UInt8) :
    Absorbs (s.updateByte b) (message ++ [b]) := by
  obtain ⟨done, pend, ha, hr, rfl⟩ := h
  have hs := storeByte_absorbed ha hr b
  unfold updateByte
  by_cases hf : (s.storeByte b).bufferSize = 64
  · have hfull : (pend ++ [b]).length = 64 := by rw [← hs.size, hf]
    refine ⟨_, _, by simpa only [hf, ↓reduceIte] using (processBlock_absorbed hs hfull).1,
      by decide, ?_⟩
    simp only [List.flatten_append, List.flatten_singleton, List.append_nil, List.append_assoc]
  · refine ⟨done, pend ++ [b], by simpa only [hf, ↓reduceIte] using hs, ?_, by
      rw [List.append_assoc]⟩
    have hroom := hs.room
    rw [hs.size] at hf
    omega

@[simp] theorem updateByte_bitCount (s : Sha256) (b : UInt8) :
    (s.updateByte b).bitCount = s.bitCount := by
  simp only [updateByte]
  split
  · rw [processBlock_bitCount, storeByte_bitCount]
  · exact storeByte_bitCount s b

theorem updateBytes_absorbs (data : Bytes) {s : Sha256} {message : Bytes}
    (h : Absorbs s message) : Absorbs (data.foldl updateByte s) (message ++ data) ∧
      (data.foldl updateByte s).bitCount = s.bitCount := by
  induction data generalizing s message with
  | nil => exact ⟨by rwa [List.append_nil], rfl⟩
  | cons b data ih =>
    obtain ⟨ha, hc⟩ := ih (updateByte_absorbs h b)
    refine ⟨?_, hc.trans (updateByte_bitCount s b)⟩
    rwa [List.append_assoc, List.singleton_append] at ha

/-- Everything `update` was given so far is absorbed and counted in bits. -/
structure Streamed (s : Sha256) (message : Bytes) : Prop where
  absorbs : Absorbs s message
  bitCount : s.bitCount = UInt64.ofNat (8*message.length)

theorem initial_streamed : Streamed {} [] :=
  ⟨⟨[], [], initial_absorbed, by decide, rfl⟩, rfl⟩

theorem update_streamed {s : Sha256} {message : Bytes} (h : Streamed s message) (data : Bytes) :
    Streamed (s.update data) (message ++ data) := by
  obtain ⟨done, pend, ha, hr, hm⟩ := h.absorbs
  have hs : Absorbs { s with bitCount := s.bitCount + UInt64.ofNat data.length*8 } message :=
    ⟨done, pend, ⟨ha.blocks, ha.state, ha.size, ha.room, ha.bufferLength, ha.buffer, ha.accesses⟩,
      hr, hm⟩
  obtain ⟨hu, hc⟩ := updateBytes_absorbs data hs
  refine ⟨hu, hc.trans ?_⟩
  apply UInt64.toNat_inj.mp
  simp only [h.bitCount, UInt64.toNat_add, UInt64.toNat_mul, UInt64.toNat_ofNat',
    UInt64.reduceToNat, List.length_append]
  omega

/-- The pieces of a message may be cut anywhere. -/
theorem updates_streamed (pieces : List Bytes) {s : Sha256} {message : Bytes}
    (h : Streamed s message) : Streamed (pieces.foldl update s) (message ++ pieces.flatten) := by
  induction pieces generalizing s message with
  | nil => rwa [List.flatten_nil, List.append_nil]
  | cons data pieces ih =>
    rw [List.foldl_cons, List.flatten_cons, ← List.append_assoc]
    exact ih (update_streamed h data)

theorem fillZeros_absorbed (limit fuel : ℕ) {s : Sha256} {done : List Bytes} {pend : Bytes}
    (h : Absorbed s done pend) (hl : limit ≤ 64) (hf : limit-pend.length ≤ fuel) :
    Absorbed (fillZeros limit fuel s) done (pend ++ List.replicate (limit-pend.length) 0) ∧
      (fillZeros limit fuel s).bitCount = s.bitCount := by
  induction fuel generalizing s pend with
  | zero =>
    rw [Nat.le_zero.mp hf, List.replicate_zero, List.append_nil]
    exact ⟨h, rfl⟩
  | succ fuel ih =>
    rw [fillZeros]
    by_cases hlt : s.bufferSize < limit
    · have hp : pend.length < limit := by rwa [← h.size]
      have hs := storeByte_absorbed h (by omega) 0
      obtain ⟨ha, hc⟩ := ih hs (by rw [List.length_append, List.length_singleton]; omega)
      rw [if_pos hlt]
      refine ⟨?_, hc⟩
      rw [List.length_append, List.length_singleton, List.append_assoc] at ha
      rwa [show limit-pend.length = limit-(pend.length+1)+1 by omega, List.replicate_succ]
    · have hz : limit-pend.length = 0 := by rw [h.size] at hlt; omega
      rw [if_neg hlt, hz, List.replicate_zero, List.append_nil]
      exact ⟨h, rfl⟩

theorem storeBytes_absorbed (bytes : Bytes) {s : Sha256} {done : List Bytes} {pend : Bytes}
    (h : Absorbed s done pend) (hr : pend.length+bytes.length ≤ 64) :
    Absorbed (bytes.foldl storeByte s) done (pend ++ bytes) := by
  induction bytes generalizing s pend with
  | nil => rwa [List.append_nil]
  | cons b bytes ih =>
    rw [List.length_cons] at hr
    have hs := ih (storeByte_absorbed h (by omega) b)
      (by rw [List.length_append, List.length_singleton]; omega)
    rwa [List.append_assoc, List.singleton_append] at hs

theorem foldl_store_bitCount (f : UInt64 → UInt64 → UInt8) (shifts : List UInt64) (s : Sha256) :
    shifts.foldl (fun s shift => s.storeByte (f s.bitCount shift)) s =
      (shifts.map (f s.bitCount)).foldl storeByte s := by
  induction shifts generalizing s with
  | nil => rfl
  | cons shift shifts ih =>
    rw [List.foldl_cons, ih, storeByte_bitCount, List.map_cons, List.foldl_cons]

/-- The loop that appends the length stores its eight bytes, most significant first. -/
theorem storeLength_absorbed {s : Sha256} {done : List Bytes} {pend : Bytes}
    (h : Absorbed s done pend) (hp : pend.length = 56) :
    Absorbed (([56, 48, 40, 32, 24, 16, 8, 0] : List UInt64).foldl
      (fun s shift => s.storeByte ((s.bitCount >>> shift) &&& 0xff).toUInt8) s) done
      (pend ++ toBE 8 s.bitCount.toNat) := by
  have hbytes := appendU64_eq [] s.bitCount
  rw [appendU64, List.nil_append, List.nil_append] at hbytes
  rw [foldl_store_bitCount fun count shift => ((count >>> shift) &&& 0xff).toUInt8, hbytes]
  exact storeBytes_absorbed _ h (by rw [length_toBE, hp])

/-- The hash state stands behind full blocks, and no access left the buffer. -/
structure Hashed (s : Sha256) (done : List Bytes) : Prop where
  blocks : ∀ b ∈ done, b.length = 64
  state : s.state.toState = done.foldl Fips180.compress Fips180.initial
  accesses : ∀ a ∈ s.accesses, a.Proper

/-- The end of `final_hex`, from a buffer with room for the length. -/
theorem lastBlock_hashed {s : Sha256} {done : List Bytes} {pend : Bytes}
    (h : Absorbed s done pend) (hp : pend.length ≤ 56) :
    Hashed (([56, 48, 40, 32, 24, 16, 8, 0] : List UInt64).foldl
        (fun s shift => s.storeByte ((s.bitCount >>> shift) &&& 0xff).toUInt8)
        (fillZeros 56 56 s)).processBlock
      (done ++ [pend ++ List.replicate (56-pend.length) 0 ++ toBE 8 s.bitCount.toNat]) := by
  obtain ⟨hz, hc⟩ := fillZeros_absorbed 56 56 h (by decide) (by omega)
  have hl := storeLength_absorbed hz (by
    rw [List.length_append, List.length_replicate]; omega)
  rw [hc] at hl
  obtain ⟨hb, hacc⟩ := processBlock_absorbed hl (by
    rw [List.length_append, List.length_append, List.length_replicate, length_toBE]; omega)
  exact ⟨hb.blocks, hb.state, hacc⟩

/-- `final_hex` compresses exactly the blocks of the padded message. -/
theorem finish_hashed {s : Sha256} {message : Bytes} (h : Streamed s message)
    (hm : message.length < 2^61) :
    ∃ blocks, Hashed s.finish blocks ∧ blocks.flatten = Fips180.padded message := by
  obtain ⟨⟨done, pend, ha, hr, hmsg⟩, hc⟩ := h
  have hbits : s.bitCount.toNat = 8*message.length := by
    rw [hc, UInt64.toNat_ofNat', Nat.mod_eq_of_lt (by omega)]
  have hlen : message.length = done.flatten.length+pend.length := by
    rw [← hmsg, List.length_append]
  have hdone : done.flatten.length%64 = 0 := by
    rw [Fips180.length_flatten_blocks done ha.blocks]
    exact Nat.mul_mod_right 64 done.length
  have hs := storeByte_absorbed ha hr 0x80
  have hplen : (pend ++ [(0x80 : UInt8)]).length = pend.length+1 := by
    rw [List.length_append, List.length_singleton]
  unfold finish
  by_cases hbig : 56 < (s.storeByte 0x80).bufferSize
  · -- the length does not fit behind the marker: one block of zeros more
    have hp : 56 < pend.length+1 := by rwa [hs.size, hplen] at hbig
    obtain ⟨hz, hzc⟩ := fillZeros_absorbed 64 64 hs le_rfl (by omega)
    obtain ⟨hb, -⟩ := processBlock_absorbed hz (by
      rw [List.length_append, hplen, List.length_replicate]; omega)
    refine ⟨_, by simpa only [hbig, ↓reduceIte] using lastBlock_hashed hb (by decide), ?_⟩
    simp only [processBlock_bitCount, hzc, storeByte_bitCount, hbits, List.flatten_append,
      List.flatten_cons, List.flatten_nil, List.append_nil, List.nil_append, List.length_nil, hplen,
      Nat.sub_zero, Fips180.padded, ← hmsg, List.append_assoc, List.singleton_append]
    rw [hmsg, show Fips180.zeroBytes message.length = 64-(pend.length+1)+56 by
      unfold Fips180.zeroBytes; omega, List.replicate_add]
    simp only [List.append_assoc, List.cons_append]
  · have hp : pend.length+1 ≤ 56 := by rwa [hs.size, hplen, not_lt] at hbig
    refine ⟨_, by simpa only [hbig, ↓reduceIte] using lastBlock_hashed hs (by rwa [hplen]), ?_⟩
    simp only [storeByte_bitCount, hbits, List.flatten_append, List.flatten_singleton, hplen,
      Fips180.padded, ← hmsg, List.append_assoc, List.singleton_append]
    rw [hmsg, show Fips180.zeroBytes message.length = 56-(pend.length+1) by
      unfold Fips180.zeroBytes; omega]

theorem hexDigit_eq (d : ℕ) (hd : d < 16) : hexDigit d = Fips180.hexDigit d := by
  interval_cases d <;> decide

def lowHex : ℕ → ℕ → Bytes
  | 0, _ => []
  | k+1, n => lowHex k (n/16) ++ [hexDigit (n%16)]

theorem lowHex_zero (k : ℕ) : lowHex k 0 = List.replicate k 48 := by
  induction k with
  | zero => rfl
  | succ k ih =>
    rw [lowHex, Nat.zero_div, ih, Nat.zero_mod, List.replicate_succ']
    rfl

/-- `setw` with zero fill prints the low digits of a number that fits. -/
theorem setw_toHex (k n : ℕ) (hk : 0 < k) (hn : n < 16^k) : setw k (toHex n) = lowHex k n := by
  induction k generalizing n with
  | zero => omega
  | succ k ih =>
    by_cases hsmall : n < 16
    · have hhex : toHex n = [hexDigit n] := by
        interval_cases n <;> decide
      rw [hhex, lowHex, Nat.div_eq_of_lt hsmall, Nat.mod_eq_of_lt hsmall, lowHex_zero, setw,
        List.length_singleton, Nat.add_sub_cancel]
    · have hk' : 0 < k := by
        apply Nat.pos_of_ne_zero
        rintro rfl
        rw [Nat.zero_add, pow_one] at hn
        exact hsmall hn
      have hdiv : n/16 < 16^k := by
        rw [pow_succ] at hn
        exact Nat.div_lt_of_lt_mul (by rwa [Nat.mul_comm] at hn)
      have hhex : toHex n = toHex (n/16) ++ [hexDigit (n%16)] := by
        have h0 : n ≠ 0 := by omega
        have h1 : n/16 ≠ 0 := by omega
        rw [toHex, if_neg h0, toHex, if_neg h1, Nat.digits_def' (by decide) (by omega),
          List.reverse_cons, List.map_append, List.map_singleton]
      rw [lowHex, ← ih (n/16) hk' hdiv, hhex]
      simp only [setw, List.length_append, List.length_singleton, ← List.append_assoc]
      congr 3
      omega

theorem hexEncode_append (a b : Bytes) :
    Fips180.hexEncode (a ++ b) = Fips180.hexEncode a ++ Fips180.hexEncode b :=
  List.flatMap_append

theorem hexEncode_toBE (k v : ℕ) : Fips180.hexEncode (toBE k v) = lowHex (2*k) v := by
  induction k generalizing v with
  | zero => rfl
  | succ k ih =>
    have hb : (UInt8.ofNat v).toNat = v%256 := UInt8.toNat_ofNat'
    rw [toBE_succ_append, hexEncode_append, ih, show 2*(k+1) = 2*k+1+1 by ring, lowHex, lowHex,
      Nat.div_div_eq_div_mul, List.append_assoc]
    congr 1
    simp only [Fips180.hexEncode, List.flatMap_cons, List.flatMap_nil, List.append_nil, hb,
      List.singleton_append]
    rw [hexDigit_eq (v%16) (by omega), hexDigit_eq (v/16%16) (by omega)]
    congr 2 <;> congr 1 <;> omega

theorem hexWord_eq (word : UInt32) :
    setw 8 (toHex word.toNat) = Fips180.hexEncode (toBE 4 word.toNat) := by
  rw [setw_toHex 8 _ (by decide) word.toNat_lt, hexEncode_toBE]

/-- The printed state is the digest in hexadecimal. -/
theorem finalHex_eq {s : Sha256} {message : Bytes} (h : Streamed s message)
    (hm : message.length < 2^61) : s.finalHex = Fips180.hexEncode (Fips180.sha256 message) ∧
      ∀ a ∈ s.finish.accesses, a.Proper := by
  obtain ⟨blocks, hf, hp⟩ := finish_hashed h hm
  refine ⟨?_, hf.accesses⟩
  have hstate : (Fips180.blocks (Fips180.padded message)).foldl Fips180.compress
      Fips180.initial = s.finish.state.toState := by
    rw [← hp, Fips180.blocks_flatten blocks hf.blocks, hf.state]
  simp only [finalHex, Fips180.sha256, hstate, Words.toList, Words.toState, List.flatMap_cons,
    List.flatMap_nil, hexWord_eq, hexEncode_append]
  rfl

end Sha256

theorem mem_lowHex (k n : ℕ) (b : UInt8) (hb : b ∈ Sha256.lowHex k n) : isHexDigit b = true := by
  induction k generalizing n with
  | zero => exact absurd hb List.not_mem_nil
  | succ k ih =>
    rcases List.mem_append.mp hb with hb | hb
    · exact ih _ hb
    · rw [List.mem_singleton.mp hb]
      have hd : n%16 < 16 := Nat.mod_lt n (by decide)
      interval_cases n%16 <;> decide

theorem length_lowHex (k n : ℕ) : (Sha256.lowHex k n).length = k := by
  induction k generalizing n with
  | zero => rfl
  | succ k ih => rw [Sha256.lowHex, List.length_append, ih, List.length_singleton]

/-- Every digest the class prints is one the packet validator admits. -/
theorem isSha256Hex_finalHex (s : Sha256) : isSha256Hex s.finalHex = true := by
  have hword (w : UInt32) : Sha256.setw 8 (Sha256.toHex w.toNat) = Sha256.lowHex 8 w.toNat :=
    Sha256.setw_toHex 8 _ (by decide) w.toNat_lt
  simp only [isSha256Hex, Sha256.finalHex, Words.toList, hword, Bool.and_eq_true, beq_iff_eq,
    List.all_eq_true, List.mem_flatMap]
  refine ⟨?_, fun b ⟨w, _, hb⟩ => mem_lowHex 8 _ b hb⟩
  simp only [List.flatMap_cons, List.flatMap_nil, List.append_nil, List.length_append,
    length_lowHex]

theorem isSha256Hex_sha256File (content : Bytes) : isSha256Hex (sha256File content) = true := by
  rw [sha256File]
  exact isSha256Hex_finalHex _

theorem readBlocks_flatten (size fuel : ℕ) (bs : Bytes) (hs : 0 < size) (hf : bs.length ≤ fuel) :
    (readBlocks size fuel bs).flatten = bs := by
  induction fuel generalizing bs with
  | zero => rw [List.eq_nil_of_length_eq_zero (Nat.le_zero.mp hf)]; rfl
  | succ fuel ih =>
    rw [readBlocks]
    split
    · subst bs
      rfl
    · rename_i hne
      have hpos : 0 < bs.length := List.length_pos_iff.mpr hne
      rw [List.flatten_cons, ih _ (by rw [List.length_drop]; omega), List.take_append_drop]

/-- The class is SHA-256: whatever the pieces given to `update`, the text of `final_hex` is the
digest of the standard over all of them, the buffer is never left, and no block is compressed
short. `sha256_file` reads one such series of pieces. -/
theorem sha256_stream_correct (pieces : List Bytes) (h : pieces.flatten.length < 2^61) :
    (pieces.foldl Sha256.update {}).finalHex =
        Fips180.hexEncode (Fips180.sha256 pieces.flatten) ∧
      (pieces.foldl Sha256.update {}).finalHex.length = 64 ∧
      (∀ a ∈ (pieces.foldl Sha256.update {}).finish.accesses, a.Proper) ∧
      sha256File pieces.flatten = Fips180.hexEncode (Fips180.sha256 pieces.flatten) := by
  have hs := Sha256.updates_streamed pieces Sha256.initial_streamed
  have hr := Sha256.updates_streamed
    (readBlocks (64*1024) pieces.flatten.length pieces.flatten) Sha256.initial_streamed
  rw [List.nil_append] at hs
  rw [List.nil_append, readBlocks_flatten _ _ _ (by decide) le_rfl] at hr
  obtain ⟨hx, ha⟩ := Sha256.finalHex_eq hs h
  have hl := isSha256Hex_finalHex (pieces.foldl Sha256.update {})
  rw [isSha256Hex, Bool.and_eq_true, beq_iff_eq] at hl
  exact ⟨hx, hl.1, ha, (Sha256.finalHex_eq hr h).1⟩

theorem sha256_stream_correct_abc :
    ([ascii "a", ascii "bc"].foldl Sha256.update {}).finalHex =
      Fips180.hexEncode (Fips180.sha256 (ascii "abc")) :=
  (sha256_stream_correct [ascii "a", ascii "bc"] (by decide)).1

end PacketBridge
