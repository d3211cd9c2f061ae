import PacketBridge.Framing
import PacketBridge.Resume
import PacketBridge.SenderRun
import PacketBridge.StoredChunks

/-! What reaches the receiver from a sender that follows the protocol, wherever the connection was
cut: the manifest of the file, and chunks that hold the bytes of the file. -/
namespace PacketBridge
open Foundations

attribute [local irreducible] sha256File

variable {m : FileManifest} {content : Bytes}

def fileChunk (m : FileManifest) (content : Bytes) (i : UInt64) : Bytes :=
  slice content (m.chunkOffset i) (m.chunkLength i)

theorem length_fileChunk (hm : m.Planned) (hsize : m.fileSize.toNat = content.length) {i : UInt64}
    (hi : i < m.chunkCount) : (fileChunk m content i).length = m.chunkLength i := by
  apply length_slice
  rw [← hsize]
  exact hm.chunk_end_le hi

theorem transferStream_cons (m : FileManifest) (content : Bytes) (i : UInt64) (is : List UInt64) :
    transferStream m content (i :: is) = serializeChunkHeader (chunkHeaderFor m i) ++
      (fileChunk m content i ++ transferStream m content is) := by
  rw [transferStream, chunkStream, List.flatMap_cons, chunkFrame, List.append_assoc,
    List.append_assoc]
  rfl

theorem transferStream_nil (m : FileManifest) (content : Bytes) :
    transferStream m content [] = serializeHashPacket (contentHash m content) := by
  rw [transferStream, chunkStream, List.flatMap_nil, List.nil_append]

/-- No chunk header begins where the hash packet does. -/
theorem acceptChunks_hashFrame (bs : Bytes)
    (hp : bs <+: serializeHashPacket (contentHash m content)) (expected : List UInt64) :
    (acceptChunks m expected bs).chunks = [] := by
  cases expected with
  | nil => rfl
  | cons i is =>
    have hnone : (parseChunkHeader bs).1 = none := by
      rw [parseChunkHeader]
      by_cases hlen : kChunkHeaderSize ≤ bs.length
      · have h32 : 32 ≤ bs.length := hlen
        have hmagic : slice (bs.take kChunkHeaderSize) 0 4 = toBE 4 kHashPacketMagic.toNat := by
          obtain ⟨t, ht⟩ := hp
          rw [serializeHashPacket_eq _ (isSha256Hex_sha256File content)] at ht
          rw [slice, List.drop_zero, List.take_take]
          have htake := congrArg (List.take 4) ht
          rwa [List.take_append_of_le_length (by omega), List.take_left' (length_toBE 4 _)] at htake
        rw [if_pos hlen, deserializeChunkHeader_eq _ (by rw [List.length_take]; omega), hmagic,
          u32_ofBE_toBE, if_pos (by decide)]
        rfl
      · rw [if_neg hlen]
    generalize hparse : parseChunkHeader bs = parsed at hnone
    obtain ⟨header, n⟩ := parsed
    obtain rfl := hnone
    rw [acceptChunks, hparse]

/-- Every chunk taken from the stream of an honest sender holds the bytes of the file, whichever
chunks the sender was asked for. -/
theorem acceptChunks_honest (hm : m.Planned) (hsize : m.fileSize.toNat = content.length)
    (idxs expected : List UInt64) (bs : Bytes) (hp : bs <+: transferStream m content idxs) :
    ∀ x ∈ (acceptChunks m expected bs).chunks, x.2 = fileChunk m content x.1 := by
  -- the induction is on what the sender was asked for; the receiver may expect others
  induction idxs generalizing expected bs with
  | nil =>
    intro x hx
    rw [transferStream_nil] at hp
    rw [acceptChunks_hashFrame bs hp expected] at hx
    cases hx
  | cons j js ih =>
    rw [transferStream_cons] at hp
    cases expected with
    | nil =>
      intro x hx
      cases hx
    | cons i is =>
      unfold acceptChunks
      split
      · intro x hx
        cases hx
      · rename_i header n hparse
        -- what was parsed is the header of the chunk that was sent
        have hgot : (parseChunkHeader bs).1 = some header := by rw [hparse]
        have hsent := parseChunkHeader_append (chunkHeaderFor m j)
          (fileChunk m content j ++ transferStream m content js)
        rw [← length_serializeChunkHeader (chunkHeaderFor m j)] at hsent
        obtain ⟨rfl, hn, -⟩ := parseChunkHeader_settles.whole hp hgot hsent
        rw [hparse] at hn
        simp only at hn ⊢
        split_ifs with hbad hshort hfar
        · intro x hx
          cases hx
        · intro x hx
          cases hx
        · intro x hx
          cases hx
        · simp only [not_or, ne_eq, not_not, Bool.not_eq_false] at hbad
          obtain ⟨rfl, hvalid⟩ := hbad
          obtain ⟨hi, -, hpay, -⟩ := (validateChunkHeader_iff hm _).mp hvalid
          change j < m.chunkCount at hi
          obtain ⟨t, ht⟩ := hp
          have hkept : (chunkHeaderFor m j).payloadSize.toNat = (fileChunk m content j).length := by
            rw [length_fileChunk hm hsize hi]
            exact hpay
          rw [hkept] at hshort ⊢
          rw [not_lt] at hshort
          intro x hx
          rcases List.mem_cons.mp hx with rfl | hx
          · -- the payload behind the header is the chunk of the file
            change slice bs n (fileChunk m content j).length = fileChunk m content j
            have hslice : ((bs ++ t).drop n).take (fileChunk m content j).length =
                fileChunk m content j := by
              rw [ht, hn, List.drop_left, List.take_left]
            rwa [List.drop_append_of_le_length (by omega),
              List.take_append_of_le_length (by rw [List.length_drop]; omega)] at hslice
          · apply ih is _ _ x hx
            refine ⟨t, ?_⟩
            rw [← List.drop_append_of_le_length hshort, ht, hn, ← List.drop_drop, List.drop_left,
              List.drop_left]

theorem chunkStream_cons_append (m : FileManifest) (content : Bytes) (i : UInt64)
    (is : List UInt64) (tail : Bytes) : chunkStream m content (i :: is) ++ tail =
      serializeChunkHeader (chunkHeaderFor m i) ++
        (fileChunk m content i ++ (chunkStream m content is ++ tail)) := by
  rw [chunkStream, List.flatMap_cons, chunkFrame, List.append_assoc, List.append_assoc]
  rfl

/-- Of the stream of the chunks that are expected all are taken, whatever follows. -/
theorem acceptChunks_chunkStream (hm : m.Planned) (hc : Sendable content)
    (hsize : m.fileSize.toNat = content.length) (idxs : List UInt64)
    (hi : ∀ i ∈ idxs, i < m.chunkCount) (tail : Bytes) :
    acceptChunks m idxs (chunkStream m content idxs ++ tail) =
      ⟨idxs.map fun i => (i, fileChunk m content i), none, tail⟩ := by
  induction idxs with
  | nil => rw [chunkStream, List.flatMap_nil, List.nil_append, acceptChunks, List.map_nil]
  | cons i is ih =>
    have hil := hi i List.mem_cons_self
    have hlen := length_fileChunk hm hsize hil
    have hpay : (chunkHeaderFor m i).payloadSize.toNat = (fileChunk m content i).length := by
      rw [hlen]
      exact hm.payloadSizeForChunk_toNat hil
    have hoff : (chunkHeaderFor m i).byteOffset.toNat = m.chunkOffset i := hm.offset_toNat hil
    -- the header that the sender builds passes the checks of the receiver
    have hvalid : validateChunkHeader m (chunkHeaderFor m i) = true := by
      rw [validateChunkHeader_iff hm]
      exact ⟨hil, hoff, hpay.trans hlen, rfl⟩
    have hnear : ¬ maxOffset ≤ (chunkHeaderFor m i).byteOffset.toNat := by
      have hlt := hm.chunkOffset_lt hil
      unfold Sendable at hc
      rw [hoff, maxOffset]
      omega
    have hgood : ¬ ((chunkHeaderFor m i).chunkIndex ≠ i ∨
        validateChunkHeader m (chunkHeaderFor m i) = false) := by
      rw [hvalid]
      simp [chunkHeaderFor]
    rw [chunkStream_cons_append, acceptChunks, parseChunkHeader_append]
    have hrest := ih fun j hj => hi j (List.mem_cons_of_mem _ hj)
    generalize chunkStream m content is ++ tail = later at hrest
    have hlong : ¬ (serializeChunkHeader (chunkHeaderFor m i) ++
        (fileChunk m content i ++ later)).length <
          kChunkHeaderSize+(fileChunk m content i).length := by
      rw [List.length_append, List.length_append, length_serializeChunkHeader]
      omega
    have hslice : slice (serializeChunkHeader (chunkHeaderFor m i) ++
        (fileChunk m content i ++ later)) kChunkHeaderSize (fileChunk m content i).length =
          fileChunk m content i := by
      rw [slice, List.drop_left' (length_serializeChunkHeader _), List.take_left]
    have hdrop : (serializeChunkHeader (chunkHeaderFor m i) ++
        (fileChunk m content i ++ later)).drop
          (kChunkHeaderSize+(fileChunk m content i).length) = later := by
      rw [← List.drop_drop, List.drop_left' (length_serializeChunkHeader _), List.drop_left]
    simp only [hpay]
    rw [if_neg hgood, if_neg hlong, if_neg hnear, hslice, hdrop, hrest, List.map_cons]

/-- A manifest taken from the stream of an honest sender is the sender's, and what follows is the
beginning of its transfer. -/
theorem received_honest (hm : m.Encodable) (hd : m.withoutDigest = m) (s : TcpSocket)
    (ho : s.isOpen = true) (rest : Bytes)
    (hp : s.incoming <+: serializeFileManifest m ++ rest) (m' : FileManifest)
    (h : (receiveFileManifest s).1 = some m') :
    m' = m ∧ (receiveFileManifest s).2.incoming <+: rest := by
  obtain ⟨k, hk⟩ := receiveFileManifest_reads s ho
  rw [hk] at h ⊢
  obtain ⟨rfl, hn, -⟩ := parseFileManifest_settles.whole hp h (parseFileManifest_append m hm rest)
  refine ⟨hd, ?_⟩
  rw [TcpSocket.skip_incoming, hn]
  obtain ⟨t, ht⟩ := hp
  by_cases hle : (serializeFileManifest m).length ≤ s.incoming.length
  · refine ⟨t, ?_⟩
    rw [← List.drop_append_of_le_length hle, ht, List.drop_left]
  · rw [List.drop_eq_nil_of_le (by omega)]
    exact List.nil_prefix

theorem range_of_validateContinueRequest {m : FileManifest} {request : ContinueRequest}
    (h : validateContinueRequest m request = true) :
    ∀ i ∈ request.missingChunkIndexes, i < m.chunkCount := by
  rw [validateContinueRequest] at h
  split at h
  · cases h
  · exact ((validateIndexes_iff _ _ _).mp h).1

/-- Whatever request reaches it, an honest sender puts a part of its manifest and of some transfer
of its file on the wire. -/
theorem sender_sends (filePath : Bytes) (hc : Sendable content)
    (hn : (senderManifest filePath content).filename.length ≤ kMaxFilenameLength) (s : TcpSocket)
    (ho : s.isOpen = true) :
    ∃ idxs part, (sender filePath content s).2.sent = s.sent ++ part ∧
      part <+: serializeFileManifest (senderManifest filePath content) ++
        transferStream (senderManifest filePath content) content idxs := by
  have henc := senderManifest_encodable filePath content hn
  have hplan := henc.planned
  have hsize : (senderManifest filePath content).fileSize.toNat = content.length :=
    hc.fileSize_toNat
  rw [sender, senderSession]
  generalize senderManifest filePath content = m at henc hplan hsize
  have hsend := s.sendAll_sends (serializeFileManifest m) ho
  have hmanifest := sendMessage_eq s (.manifest m) henc
  change sendFileManifest s m = s.sendAll (serializeFileManifest m) at hmanifest
  rw [hmanifest]
  generalize s.sendAll (serializeFileManifest m) = sent at hsend
  obtain ⟨ok, s1⟩ := sent
  obtain ⟨part, hpart, hfront, hwhole⟩ := hsend.sent
  cases ok with
  | false => exact ⟨[], part, hpart, hfront.trans (List.prefix_append _ _)⟩
  | true =>
    obtain rfl := hwhole rfl
    have hopen : s1.isOpen = true := hsend.isOpen.trans ho
    obtain ⟨k, hk⟩ := receiveContinueRequest_reads s1 hopen
    simp only [hk]
    cases hparsed : (parseContinueRequest s1.incoming).1 with
    | none => exact ⟨[], serializeFileManifest m, hpart, List.prefix_append _ _⟩
    | some request =>
      simp only
      split_ifs with hvalid
      · obtain ⟨ok, -, htransfer⟩ := senderTransfer_sends hplan hc hsize request
          (range_of_validateContinueRequest hvalid)
          (s1.skip (parseContinueRequest s1.incoming).2 k) hopen
        obtain ⟨part, hpart', hfront', -⟩ := htransfer.sent
        refine ⟨request.missingChunkIndexes, serializeFileManifest m ++ part, ?_, ?_⟩
        · rw [hpart', TcpSocket.skip_sent, hpart, List.append_assoc]
        · exact (List.prefix_append_right_inj _).mpr hfront'
      · exact ⟨[], serializeFileManifest m, hpart, List.prefix_append _ _⟩

end PacketBridge
