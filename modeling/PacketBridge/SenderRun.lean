import PacketBridge.Sender
import PacketBridge.Sha256Stream

namespace PacketBridge
open Foundations

attribute [local irreducible] sha256File

/-- A chunk on the wire: its header and its bytes of the file. -/
def chunkFrame (m : FileManifest) (content : Bytes) (i : UInt64) : Bytes :=
  serializeChunkHeader (chunkHeaderFor m i) ++ slice content (m.chunkOffset i) (m.chunkLength i)

def chunkStream (m : FileManifest) (content : Bytes) (idxs : List UInt64) : Bytes :=
  idxs.flatMap (chunkFrame m content)

/-- All that follows the manifest on the wire, when these chunks are asked for. -/
def transferStream (m : FileManifest) (content : Bytes) (idxs : List UInt64) : Bytes :=
  chunkStream m content idxs ++ serializeHashPacket (contentHash m content)

/-- A file the sender can read: its length is a signed 64-bit number. -/
def Sendable (content : Bytes) : Prop := content.length < 2^63

instance (content : Bytes) : Decidable (Sendable content) :=
  inferInstanceAs (Decidable (content.length < 2^63))

theorem Sendable.fileSize_toNat {content : Bytes} (h : Sendable content) :
    (fileSize content).toNat = content.length := by
  unfold Sendable at h
  rw [fileSize, UInt64.toNat_ofNat_of_lt']
  exact h.trans (by decide)

theorem length_hashFrame (m : FileManifest) (content : Bytes) :
    (serializeHashPacket (contentHash m content)).length = kHashPacketSize :=
  length_serializeHashPacket _ (isSha256Hex_sha256File content)

@[simp] theorem withoutDigest_senderManifest (filePath content : Bytes) :
    (senderManifest filePath content).withoutDigest = senderManifest filePath content := rfl

theorem senderManifest_encodable (filePath content : Bytes)
    (hn : (senderManifest filePath content).filename.length ≤ kMaxFilenameLength) :
    (senderManifest filePath content).Encodable where
  version := rfl
  nameNonempty := List.length_pos_iff.mpr (sanitizeFilename_ne_nil _)
  nameShort := hn
  chunkSizePos := by
    change UInt32.ofNat kDefaultChunkSize ≠ 0
    decide
  chunkCountExpected := by
    simp only [senderManifest, manifestFor, chunkCount, expectedChunks]
    rw [if_neg (by decide)]

theorem sendFileChunks_sends {m : FileManifest} (hm : m.Planned) {content : Bytes}
    (hc : Sendable content) (hsize : m.fileSize.toNat = content.length) (idxs : List UInt64)
    (hi : ∀ i ∈ idxs, i < m.chunkCount) (t : ProgressTracker) (s : TcpSocket)
    (ho : s.isOpen = true) :
    TcpSocket.Sends s (chunkStream m content idxs) (sendFileChunks content m idxs t s).1.isNone
      (sendFileChunks content m idxs t s).2.2 := by
  -- the induction is on the chunks still to send, over the connection the last one left
  induction idxs generalizing t s with
  | nil => exact TcpSocket.Sends.nil s
  | cons i is ih =>
    have hil := hi i List.mem_cons_self
    have hoff := hm.offset_toNat hil
    have hpay := hm.payloadSizeForChunk_toNat hil
    have hend := hm.chunk_end_le hil
    have hlen := length_slice content (m.chunkOffset i) (m.chunkLength i) (by omega)
    unfold Sendable at hc
    have hstream : chunkStream m content (i :: is) = serializeChunkHeader (chunkHeaderFor m i) ++
        (slice content (m.chunkOffset i) (m.chunkLength i) ++ chunkStream m content is) := by
      rw [chunkStream, List.flatMap_cons, chunkFrame, List.append_assoc, chunkStream]
    rw [sendFileChunks_cons, hstream]
    simp only [hoff, hpay, hlen, ne_eq, not_true_eq_false, ↓reduceIte,
      show ¬ m.chunkOffset i ≥ 2^63 by omega]
    have hheader := s.sendAll_sends (serializeChunkHeader (chunkHeaderFor m i)) ho
    rw [sendChunkHeader]
    generalize s.sendAll _ = header at hheader ⊢
    obtain ⟨ok, s1⟩ := header
    cases ok with
    | false => exact hheader.cut _
    | true =>
      have hopen : s1.isOpen = true := hheader.isOpen.trans ho
      have hpayload := s1.sendAll_sends (slice content (m.chunkOffset i) (m.chunkLength i)) hopen
      simp only
      generalize s1.sendAll _ = payload at hpayload ⊢
      obtain ⟨ok, s2⟩ := payload
      cases ok with
      | false => exact hheader.append (hpayload.cut _)
      | true =>
        exact hheader.append (hpayload.append (ih
          (fun j hj => hi j (List.mem_cons_of_mem i hj)) _ s2 (hpayload.isOpen.trans hopen)))

theorem sendFileChunks_ne_complete (content : Bytes) (m : FileManifest) (idxs : List UInt64)
    (t : ProgressTracker) (s : TcpSocket) (exit : SenderExit)
    (h : (sendFileChunks content m idxs t s).1 = some exit) : exit ≠ .complete := by
  induction idxs generalizing t s with
  | nil => cases h
  | cons i is ih =>
    rw [sendFileChunks_cons] at h
    simp only at h
    split at h
    · obtain rfl := Option.some.inj h
      exact nofun
    · split at h
      · obtain rfl := Option.some.inj h
        exact nofun
      · split at h
        · obtain rfl := Option.some.inj h
          exact nofun
        · split at h
          · obtain rfl := Option.some.inj h
            exact nofun
          · exact ih _ _ h

theorem sendHashFrame (s : TcpSocket) (m : FileManifest) (content : Bytes) :
    sendHashPacket s (contentHash m content) =
      s.sendAll (serializeHashPacket (contentHash m content)) := by
  rw [sendHashPacket]
  refine if_neg (List.ne_nil_of_length_pos ?_)
  rw [length_hashFrame, kHashPacketSize]
  omega

theorem senderTransfer_sends {m : FileManifest} (hm : m.Planned) {content : Bytes}
    (hc : Sendable content) (hsize : m.fileSize.toNat = content.length) (request : ContinueRequest)
    (hi : ∀ i ∈ request.missingChunkIndexes, i < m.chunkCount) (s : TcpSocket)
    (ho : s.isOpen = true) :
    ∃ ok, (ok = true ↔ (senderTransfer content m request s).1 = .complete) ∧
      TcpSocket.Sends s (transferStream m content request.missingChunkIndexes) ok
        (senderTransfer content m request s).2 := by
  rw [transferStream]
  generalize ht : ({
    totalBytes := bytesForChunks m request.missingChunkIndexes
    totalChunks := UInt64.ofNat request.missingChunkIndexes.length } : ProgressTracker) = t
  have hchunks := sendFileChunks_sends hm hc hsize request.missingChunkIndexes hi t s ho
  have hexit := sendFileChunks_ne_complete content m request.missingChunkIndexes t s
  generalize hr : sendFileChunks content m request.missingChunkIndexes t s = r at hchunks hexit
  obtain ⟨failed, t1, s1⟩ := r
  cases failed with
  | some exit =>
    have htransfer : senderTransfer content m request s = (exit, s1) := by
      rw [senderTransfer, senderTransferOf_eq, ht, ← sendFileChunks, hr]
    rw [htransfer]
    exact ⟨false, iff_of_false Bool.false_ne_true (hexit exit rfl), hchunks.cut _⟩
  | none =>
    have hhash := s1.sendAll_sends (serializeHashPacket (contentHash m content))
      (hchunks.isOpen.trans ho)
    have htransfer : senderTransfer content m request s =
        (if (sendHashPacket s1 (contentHash m content)).1 then .complete else .hashNotSent,
          (sendHashPacket s1 (contentHash m content)).2) := by
      rw [senderTransfer, senderTransferOf_eq, ht, ← sendFileChunks, hr]
    rw [htransfer]
    rw [← sendHashFrame] at hhash
    generalize sendHashPacket s1 (contentHash m content) = r at hhash ⊢
    obtain ⟨ok, s2⟩ := r
    cases ok with
    | false =>
      refine ⟨false, iff_of_false Bool.false_ne_true ?_, hchunks.append hhash⟩
      intro h
      cases h
    | true => exact ⟨true, iff_of_true rfl rfl, hchunks.append hhash⟩

end PacketBridge
