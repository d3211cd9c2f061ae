import PacketBridge.ChunkCodec
import PacketBridge.FileUtils
import PacketBridge.ManifestCodec

namespace PacketBridge
open Foundations

/-- Both programs carry their own copy of this function. -/
def payloadSizeForChunk (manifest : FileManifest) (chunkIndex : UInt64) : UInt32 :=
  let offset := chunkIndex*manifest.chunkSize.toUInt64
  let remaining := manifest.fileSize - offset
  (min remaining manifest.chunkSize.toUInt64).toUInt32

namespace FileManifest

/-- The first byte of a chunk, in exact arithmetic. -/
def chunkOffset (m : FileManifest) (i : UInt64) : ℕ := i.toNat*m.chunkSize.toNat

/-- The number of bytes of a chunk, in exact arithmetic. -/
def chunkLength (m : FileManifest) (i : UInt64) : ℕ :=
  min m.chunkSize.toNat (m.fileSize.toNat-m.chunkOffset i)

/-- The chunk count formula exceeds 64 bits on the way. -/
def Wraps (m : FileManifest) : Prop := 2^64 ≤ m.fileSize.toNat+m.chunkSize.toNat-1

variable {m : FileManifest}

/-- Where the manifest announces chunks at all, it announces as many as its sizes make. -/
structure Planned (m : FileManifest) : Prop where
  chunkSizePos : m.chunkSize ≠ 0
  count : m.chunkCount ≠ 0 → m.chunkCount.toNat = m.fileSize.toNat ⌈/⌉ m.chunkSize.toNat

theorem Encodable.chunkCount_of_wraps (h : m.Encodable) (hw : m.Wraps) : m.chunkCount = 0 := by
  rw [h.chunkCountExpected, expectedChunks_wraps _ _ hw]

theorem Encodable.chunkCount_toNat (h : m.Encodable) (hw : ¬ m.Wraps) :
    m.chunkCount.toNat = m.fileSize.toNat ⌈/⌉ m.chunkSize.toNat := by
  rw [h.chunkCountExpected]
  exact expectedChunks_toNat _ _ h.chunkSizePos (not_le.mp hw)

theorem Encodable.planned (h : m.Encodable) : m.Planned :=
  ⟨h.chunkSizePos, fun h0 => h.chunkCount_toNat fun hw => h0 (h.chunkCount_of_wraps hw)⟩

theorem Planned.chunkSize_pos (h : m.Planned) : 0 < m.chunkSize.toNat :=
  Nat.pos_of_ne_zero fun h0 => h.chunkSizePos (UInt32.toNat_inj.mp h0)

theorem ne_zero_of_index {i n : UInt64} (hi : i < n) : n ≠ 0 := by
  rintro rfl
  exact absurd hi (UInt64.not_lt.mpr UInt64.zero_le)

theorem Planned.index_le_iff (h : m.Planned) {i : UInt64} (hi : i < m.chunkCount) (n : ℕ) :
    m.chunkCount.toNat ≤ n ↔ m.fileSize.toNat ≤ n*m.chunkSize.toNat := by
  rw [h.count (ne_zero_of_index hi), ceilDiv_le_iff_le_mul h.chunkSize_pos, Nat.mul_comm]

theorem Planned.chunkOffset_lt (h : m.Planned) {i : UInt64} (hi : i < m.chunkCount) :
    m.chunkOffset i < m.fileSize.toNat := by
  have hn := (h.index_le_iff hi i.toNat).not
  rw [not_le, not_le] at hn
  exact hn.mp (UInt64.lt_iff_toNat_lt.mp hi)

theorem Planned.chunkLength_pos (h : m.Planned) {i : UInt64} (hi : i < m.chunkCount) :
    0 < m.chunkLength i := by
  have ho := h.chunkOffset_lt hi
  exact lt_min h.chunkSize_pos (by omega)

theorem Planned.chunk_end_le (h : m.Planned) {i : UInt64} (hi : i < m.chunkCount) :
    m.chunkOffset i+m.chunkLength i ≤ m.fileSize.toNat := by
  have ho := h.chunkOffset_lt hi
  have hl : m.chunkLength i ≤ m.fileSize.toNat-m.chunkOffset i := Nat.min_le_right _ _
  omega

theorem chunkLength_le (m : FileManifest) (i : UInt64) : m.chunkLength i ≤ m.chunkSize.toNat :=
  Nat.min_le_left _ _

/-- The range of a chunk ends where the next begins or the file ends. -/
theorem Planned.chunk_end (h : m.Planned) {i : UInt64} (hi : i < m.chunkCount) :
    m.chunkOffset i+m.chunkLength i =
      min ((i.toNat+1)*m.chunkSize.toNat) m.fileSize.toNat := by
  have ho := h.chunkOffset_lt hi
  rw [chunkLength, Nat.add_mul, Nat.one_mul, ← chunkOffset]
  omega

theorem chunk_end_le_chunkOffset (m : FileManifest) {i j : UInt64} (hij : i < j) :
    m.chunkOffset i+m.chunkLength i ≤ m.chunkOffset j := by
  have hlt := UInt64.lt_iff_toNat_lt.mp hij
  calc m.chunkOffset i+m.chunkLength i ≤ i.toNat*m.chunkSize.toNat+m.chunkSize.toNat :=
        Nat.add_le_add_left (m.chunkLength_le i) _
    _ = (i.toNat+1)*m.chunkSize.toNat := by ring
    _ ≤ m.chunkOffset j := Nat.mul_le_mul_right _ hlt

/-- Every byte of the file is in the range of one chunk of the plan. -/
theorem Planned.exists_chunk (h : m.Planned)
    (hc : m.chunkCount.toNat = m.fileSize.toNat ⌈/⌉ m.chunkSize.toNat) {k : ℕ}
    (hk : k < m.fileSize.toNat) :
    ∃ i, i < m.chunkCount ∧ m.chunkOffset i ≤ k ∧ k < m.chunkOffset i+m.chunkLength i := by
  have hpos := h.chunkSize_pos
  have hlow : k/m.chunkSize.toNat*m.chunkSize.toNat ≤ k := Nat.div_mul_le_self _ _
  have hhigh : k < k/m.chunkSize.toNat*m.chunkSize.toNat+m.chunkSize.toNat := Nat.lt_div_mul_add hpos
  have hn : k/m.chunkSize.toNat < m.chunkCount.toNat := by
    by_contra hge
    have hle := not_lt.mp hge
    rw [hc, ceilDiv_le_iff_le_mul hpos, Nat.mul_comm] at hle
    omega
  have hval : (UInt64.ofNat (k/m.chunkSize.toNat)).toNat = k/m.chunkSize.toNat :=
    UInt64.toNat_ofNat_of_lt' (hn.trans m.chunkCount.toNat_lt)
  refine ⟨UInt64.ofNat (k/m.chunkSize.toNat), ?_, ?_, ?_⟩
  · rw [UInt64.lt_iff_toNat_lt, hval]
    exact hn
  · rw [chunkOffset, hval]
    exact hlow
  · rw [chunkLength, chunkOffset, hval]
    omega

theorem Planned.offset_toNat (h : m.Planned) {i : UInt64} (hi : i < m.chunkCount) :
    (i*m.chunkSize.toUInt64).toNat = m.chunkOffset i := by
  have ho := h.chunkOffset_lt hi
  rw [UInt64.toNat_mul, UInt32.toNat_toUInt64]
  exact Nat.mod_eq_of_lt (ho.trans m.fileSize.toNat_lt)

theorem Planned.payloadSizeForChunk_toNat (h : m.Planned) {i : UInt64}
    (hi : i < m.chunkCount) : (payloadSizeForChunk m i).toNat = m.chunkLength i := by
  have ho := h.chunkOffset_lt hi
  have hlt := m.fileSize.toNat_lt
  have hcs := m.chunkSize.toNat_lt
  have hoff := h.offset_toNat hi
  have hrem : (m.fileSize - i*m.chunkSize.toUInt64).toNat =
      m.fileSize.toNat-m.chunkOffset i := by
    rw [UInt64.toNat_sub_of_le, hoff]
    rw [UInt64.le_iff_toNat_le, hoff]
    exact ho.le
  have hmin : (min (m.fileSize - i*m.chunkSize.toUInt64) m.chunkSize.toUInt64).toNat =
      m.chunkLength i := by
    have hdef : min (m.fileSize - i*m.chunkSize.toUInt64) m.chunkSize.toUInt64 =
        if m.fileSize - i*m.chunkSize.toUInt64 ≤ m.chunkSize.toUInt64 then
          m.fileSize - i*m.chunkSize.toUInt64 else m.chunkSize.toUInt64 := rfl
    rw [hdef]
    split
    · rename_i hle
      rw [UInt64.le_iff_toNat_le, hrem, UInt32.toNat_toUInt64] at hle
      rw [hrem, chunkLength, Nat.min_eq_right hle]
    · rename_i hle
      rw [UInt64.le_iff_toNat_le, hrem, UInt32.toNat_toUInt64] at hle
      rw [UInt32.toNat_toUInt64, chunkLength, Nat.min_eq_left (by omega)]
  rw [payloadSizeForChunk, UInt64.toNat_toUInt32, hmin]
  exact Nat.mod_eq_of_lt ((m.chunkLength_le i).trans_lt hcs)

end FileManifest

/-- For a planned manifest the header check admits exactly the header of a chunk of the plan. -/
theorem validateChunkHeader_iff {m : FileManifest} (h : m.Planned) (hd : ChunkHeader) :
    validateChunkHeader m hd = true ↔ hd.chunkIndex < m.chunkCount ∧
      hd.byteOffset.toNat = m.chunkOffset hd.chunkIndex ∧
      hd.payloadSize.toNat = m.chunkLength hd.chunkIndex ∧ hd.sessionId = m.sessionId := by
  by_cases hi : hd.chunkIndex < m.chunkCount
  swap
  · rw [validateChunkHeader]
    simp only
    rw [if_pos (Or.inr (Or.inl (UInt64.not_lt.mp hi)))]
    simp only [Bool.false_eq_true, hi, false_and]
  have ho := h.chunkOffset_lt hi
  have hoff := h.offset_toNat hi
  have hpos := h.chunkLength_pos hi
  have hend := h.chunk_end_le hi
  have hcl := m.chunkLength_le hd.chunkIndex
  have hlt := m.fileSize.toNat_lt
  have hpl := hd.payloadSize.toNat_lt
  have hil := UInt64.lt_iff_toNat_lt.mp hi
  have hcc := m.chunkCount.toNat_lt
  have hbyte : hd.byteOffset = hd.chunkIndex*m.chunkSize.toUInt64 ↔
      hd.byteOffset.toNat = m.chunkOffset hd.chunkIndex := by
    rw [← UInt64.toNat_inj, hoff]
  have hnext : hd.chunkIndex + 1 = m.chunkCount ↔ hd.chunkIndex.toNat+1 = m.chunkCount.toNat := by
    rw [← UInt64.toNat_inj, UInt64.toNat_add, UInt64.toNat_one, Nat.mod_eq_of_lt (by omega)]
  -- the expected size of the last chunk and of the others is the planned length
  have hexpected (hb : hd.byteOffset.toNat = m.chunkOffset hd.chunkIndex) :
      (if hd.chunkIndex + 1 = m.chunkCount then m.fileSize - hd.byteOffset
        else m.chunkSize.toUInt64).toNat = m.chunkLength hd.chunkIndex := by
    have hle := h.index_le_iff hi (hd.chunkIndex.toNat+1)
    rw [Nat.add_mul, Nat.one_mul, ← FileManifest.chunkOffset] at hle
    rw [FileManifest.chunkLength]
    split
    · rename_i hlast
      rw [hnext] at hlast
      have hfits := hle.mp (by omega)
      rw [UInt64.toNat_sub_of_le _ _ (UInt64.le_iff_toNat_le.mpr (by omega)), hb]
      omega
    · rename_i hlast
      rw [hnext] at hlast
      have hfits := hle.not.mp (by omega)
      rw [UInt32.toNat_toUInt64]
      omega
  rw [validateChunkHeader]
  simp only
  constructor
  · intro hv
    split at hv
    · cases hv
    · rename_i h1
      split at hv
      · cases hv
      · rename_i h2
        simp only [not_or, ne_eq, not_not] at h1 h2
        have hb := hbyte.mp h2.1
        refine ⟨hi, hb, ?_, h1.2.2.2.2⟩
        rw [← hexpected hb, ← congrArg UInt64.toNat (beq_iff_eq.mp hv), UInt32.toNat_toUInt64]
  · rintro ⟨-, hb, hs, hsession⟩
    have hsize : hd.payloadSize.toUInt64.toNat = m.chunkLength hd.chunkIndex := by
      rw [UInt32.toNat_toUInt64, hs]
    rw [if_neg, if_neg, beq_iff_eq, ← UInt64.toNat_inj, hexpected hb, hsize]
    · simp only [not_or, ne_eq, not_not, UInt64.not_lt, ge_iff_le, UInt64.not_le, gt_iff_lt]
      refine ⟨hbyte.mpr hb, ?_, ?_⟩
      · rw [UInt64.lt_iff_toNat_lt]
        omega
      · rw [UInt64.le_iff_toNat_le, UInt64.toNat_add, hsize, Nat.mod_eq_of_lt (by omega)]
        omega
    · simp only [not_or, ne_eq, not_not, ge_iff_le, UInt64.not_le, gt_iff_lt, UInt32.not_lt]
      refine ⟨h.chunkSizePos, hi, ?_, ?_, hsession⟩
      · intro h0
        rw [h0] at hs
        exact absurd hs (by rw [UInt32.toNat_zero]; omega)
      · rw [UInt32.le_iff_toNat_le]
        omega

theorem chunkCount_eq_expectedChunks (size : UInt64) (cs : UInt32) (hcs : cs ≠ 0) :
    chunkCount size cs = expectedChunks size cs := if_neg hcs

/-- The count formula gives the ceiling exactly as long as its sum fits in 64 bits. -/
theorem expectedChunks_eq_ceil_iff (size : UInt64) (cs : UInt32) (hcs : cs ≠ 0) :
    (expectedChunks size cs).toNat = size.toNat ⌈/⌉ cs.toNat ↔
      size.toNat+cs.toNat-1 < 2^64 := by
  have hpos : 0 < cs.toNat := Nat.pos_of_ne_zero fun h => hcs (UInt32.toNat_inj.mp h)
  refine ⟨fun h => ?_, expectedChunks_toNat size cs hcs⟩
  by_contra hw
  rw [expectedChunks_wraps size cs (not_lt.mp hw), UInt64.toNat_zero] at h
  have hlt := cs.toNat_lt
  have hzero := (ceilDiv_le_iff_le_mul hpos).mp h.symm.le
  omega

/-- On both sides the announced count covers the file exactly where the formula does not wrap. -/
theorem chunkCount_eq_ceil_iff (frame : Bytes) (m : FileManifest)
    (h : deserializeFileManifest frame = .ok m) (size : UInt64) (chunkSize : UInt32)
    (hcs : chunkSize ≠ 0) :
    (m.chunkCount.toNat = m.fileSize.toNat ⌈/⌉ m.chunkSize.toNat ↔
      m.fileSize.toNat+m.chunkSize.toNat-1 < 2^64) ∧
    ((chunkCount size chunkSize).toNat = size.toNat ⌈/⌉ chunkSize.toNat ↔
      size.toNat+chunkSize.toNat-1 < 2^64) := by
  have henc := (encodable_of_accepted frame m h).1
  rw [henc.chunkCountExpected, chunkCount_eq_expectedChunks size chunkSize hcs]
  exact ⟨expectedChunks_eq_ceil_iff _ _ henc.chunkSizePos,
    expectedChunks_eq_ceil_iff size chunkSize hcs⟩

def smallManifest : FileManifest :=
  { filename := ascii "a", fileSize := 3, chunkSize := 2, chunkCount := 2 }

theorem smallManifest_encodable : smallManifest.Encodable :=
  ⟨rfl, by decide, by decide, by decide, by decide⟩

theorem chunkCount_eq_ceil_iff_small :
    smallManifest.chunkCount.toNat =
        smallManifest.fileSize.toNat ⌈/⌉ smallManifest.chunkSize.toNat ∧
      (chunkCount 5 2).toNat = 5 ⌈/⌉ 2 :=
  let h := chunkCount_eq_ceil_iff _ smallManifest
    (deserialize_serializeFileManifest smallManifest smallManifest_encodable) 5 2 (by decide)
  ⟨h.1.mpr (by decide), h.2.mpr (by decide)⟩

/-- A file of the largest size in chunks of two bytes: the sum of the formula is `2^64`. -/
def wrappingManifest : FileManifest :=
  { filename := ascii "a", fileSize := 18446744073709551615, chunkSize := 2, chunkCount := 0 }

/-- The decoder takes it with no chunks, and the sender counts none. -/
theorem wrappingManifest_accepted :
    deserializeFileManifest (serializeFileManifest wrappingManifest) = .ok wrappingManifest ∧
      wrappingManifest.chunkCount.toNat ≠
        wrappingManifest.fileSize.toNat ⌈/⌉ wrappingManifest.chunkSize.toNat ∧
      (chunkCount wrappingManifest.fileSize wrappingManifest.chunkSize).toNat ≠
        wrappingManifest.fileSize.toNat ⌈/⌉ wrappingManifest.chunkSize.toNat := by
  refine ⟨?_, by decide, by decide⟩
  exact deserialize_serializeFileManifest wrappingManifest
    ⟨rfl, by decide, by decide, by decide, by decide⟩

end PacketBridge
