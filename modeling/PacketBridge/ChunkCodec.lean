import PacketBridge.ByteCodec
import PacketBridge.TcpSocket

namespace PacketBridge
open Foundations

def kChunkHeaderMagic : UInt32 := 0x50424348
def kChunkHeaderSize : ℕ := 4+8+8+8+4

def serializeChunkHeader (header : ChunkHeader) : Bytes :=
  let payload := appendU32 [] kChunkHeaderMagic
  let payload := appendU64 payload header.sessionId
  let payload := appendU64 payload header.chunkIndex
  let payload := appendU64 payload header.byteOffset
  appendU32 payload header.payloadSize

def deserializeChunkHeader (payload : Bytes) : Decode ChunkHeader := do
  rejectIf (payload.length ≠ kChunkHeaderSize)
  let (magic, offset) ← readU32 payload 0
  rejectIf (magic ≠ kChunkHeaderMagic)
  let (sessionId, offset) ← readU64 payload offset
  let (chunkIndex, offset) ← readU64 payload offset
  let (byteOffset, offset) ← readU64 payload offset
  let (payloadSize, _) ← readU32 payload offset
  return { sessionId, chunkIndex, byteOffset, payloadSize }

def sendChunkHeader (socket : TcpSocket) (header : ChunkHeader) : Bool × TcpSocket :=
  socket.sendAll (serializeChunkHeader header)

def receiveChunkHeader (socket : TcpSocket) : Option ChunkHeader × TcpSocket :=
  match socket.recvExact kChunkHeaderSize with
  | (none, socket) => (none, socket)
  | (some payload, socket) => ((deserializeChunkHeader payload).toOption, socket)

def validateChunkHeader (manifest : FileManifest) (header : ChunkHeader) : Bool :=
  let chunkSize := manifest.chunkSize.toUInt64
  let payloadSize := header.payloadSize.toUInt64
  if manifest.chunkSize = 0 ∨ header.chunkIndex ≥ manifest.chunkCount ∨ header.payloadSize = 0 ∨
      header.payloadSize > manifest.chunkSize ∨ header.sessionId ≠ manifest.sessionId then
    false
  else if header.byteOffset ≠ header.chunkIndex*chunkSize ∨
      header.byteOffset ≥ manifest.fileSize ∨
      header.byteOffset + payloadSize > manifest.fileSize then
    false
  else
    let expectedSize :=
      if header.chunkIndex + 1 = manifest.chunkCount then manifest.fileSize - header.byteOffset
      else chunkSize
    payloadSize == expectedSize

theorem serializeChunkHeader_eq (h : ChunkHeader) :
    serializeChunkHeader h = toBE 4 kChunkHeaderMagic.toNat ++ (toBE 8 h.sessionId.toNat ++
      (toBE 8 h.chunkIndex.toNat ++ (toBE 8 h.byteOffset.toNat ++ toBE 4 h.payloadSize.toNat))) := by
  simp only [serializeChunkHeader, appendU32_eq, appendU64_eq, List.nil_append, List.append_assoc]

@[simp] theorem length_serializeChunkHeader (h : ChunkHeader) :
    (serializeChunkHeader h).length = kChunkHeaderSize := by
  rw [serializeChunkHeader_eq]
  simp only [List.length_append, length_toBE]
  rfl

theorem deserializeChunkHeader_eq (payload : Bytes) (h : payload.length = kChunkHeaderSize) :
    deserializeChunkHeader payload =
      if UInt32.ofNat (ofBE (slice payload 0 4)) ≠ kChunkHeaderMagic then .error .rejected
      else .ok {
        sessionId := UInt64.ofNat (ofBE (slice payload 4 8))
        chunkIndex := UInt64.ofNat (ofBE (slice payload 12 8))
        byteOffset := UInt64.ofNat (ofBE (slice payload 20 8))
        payloadSize := UInt32.ofNat (ofBE (slice payload 28 4)) } := by
  have hl : payload.length = 32 := h
  simp only [deserializeChunkHeader, rejectIf, h, ne_eq, not_true_eq_false, ↓reduceIte, ok_bind,
    readU32_eq payload 0 (by omega), readU64_eq payload 4 (by omega),
    readU64_eq payload 12 (by omega), readU64_eq payload 20 (by omega),
    readU32_eq payload 28 (by omega), Nat.zero_add, Nat.reduceAdd]
  split_ifs <;> rfl

theorem deserialize_serializeChunkHeader (h : ChunkHeader) :
    deserializeChunkHeader (serializeChunkHeader h) = .ok h := by
  rw [deserializeChunkHeader_eq _ (length_serializeChunkHeader h), serializeChunkHeader_eq]
  simp only [slice_append_right, slice_append_left, slice_self, length_toBE, Nat.reduceSub,
    Nat.reduceLeDiff, Nat.le_refl, u32_ofBE_toBE, u64_ofBE_toBE, ne_eq, not_true_eq_false,
    ↓reduceIte]

/-- Whatever vector is accepted, it is the one the encoder writes. -/
theorem serialize_deserializeChunkHeader (payload : Bytes) (h : ChunkHeader)
    (hd : deserializeChunkHeader payload = .ok h) :
    payload.length = kChunkHeaderSize ∧ serializeChunkHeader h = payload := by
  by_cases hl : payload.length = kChunkHeaderSize
  · have h32 : payload.length = 32 := hl
    rw [deserializeChunkHeader_eq payload hl] at hd
    by_cases hm : UInt32.ofNat (ofBE (slice payload 0 4)) = kChunkHeaderMagic
    · rw [if_neg (not_not.mpr hm)] at hd
      obtain rfl := Except.ok.inj hd
      refine ⟨hl, ?_⟩
      rw [serializeChunkHeader_eq, ← hm]
      simp only [u32_toBE_slice payload 0 (by omega), u64_toBE_slice payload 4 (by omega),
        u64_toBE_slice payload 12 (by omega), u64_toBE_slice payload 20 (by omega),
        u32_toBE_slice payload 28 (by omega)]
      rw [slice_append_slice payload 20 8 4, slice_append_slice payload 12 8 12,
        slice_append_slice payload 4 8 20, slice_append_slice payload 0 4 28,
        slice_self payload 32 h32]
    · rw [if_pos hm] at hd
      cases hd
  · rw [deserializeChunkHeader, rejectIf_bind, if_pos hl] at hd
    cases hd

def parseChunkHeader (bs : Bytes) : Option ChunkHeader × ℕ :=
  (if kChunkHeaderSize ≤ bs.length then
    (deserializeChunkHeader (bs.take kChunkHeaderSize)).toOption else none, kChunkHeaderSize)

theorem receiveChunkHeader_reads : TcpSocket.Reads receiveChunkHeader parseChunkHeader :=
  TcpSocket.recvExact_reads kChunkHeaderSize fun payload => (deserializeChunkHeader payload).toOption

theorem parseChunkHeader_settles : TcpSocket.Settles parseChunkHeader :=
  TcpSocket.fixed_settles kChunkHeaderSize fun payload => (deserializeChunkHeader payload).toOption

theorem parseChunkHeader_append (h : ChunkHeader) (rest : Bytes) :
    parseChunkHeader (serializeChunkHeader h ++ rest) = (some h, kChunkHeaderSize) := by
  rw [parseChunkHeader, List.take_left' (length_serializeChunkHeader h),
    deserialize_serializeChunkHeader, List.length_append, length_serializeChunkHeader,
    if_pos (Nat.le_add_right _ _)]
  rfl

/-- The header codec is exact on all headers, and the stream reader follows it. -/
theorem chunkHeader_codec : TakesEncoding (fun _ => True) serializeChunkHeader
    (fun payload => (deserializeChunkHeader payload).toOption) parseChunkHeader where
  decode_encode := by
    intro h _
    rw [deserialize_serializeChunkHeader]
    rfl
  accepted := by
    intro payload h hd
    rw [toOption_eq_some] at hd
    exact ⟨trivial, (serialize_deserializeChunkHeader payload h hd).2⟩
  takes := by
    intro h rest _
    rw [parseChunkHeader_append, length_serializeChunkHeader]
  decodes := by
    intro bs h hd
    rw [parseChunkHeader] at hd ⊢
    split at hd
    · exact hd
    · cases hd

end PacketBridge
