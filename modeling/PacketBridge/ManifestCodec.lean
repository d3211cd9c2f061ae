import PacketBridge.ByteCodec
import PacketBridge.TcpSocket
import Mathlib.Algebra.Order.Floor.Div

namespace PacketBridge
open Foundations

def kManifestMagic : UInt32 := 0x5042464d
def kManifestHeaderSize : ℕ := 4+2+2+8+4+8+8+2

/-- Empty when the name is too long. -/
def serializeFileManifest (manifest : FileManifest) : Bytes :=
  if manifest.filename.length > kMaxFilenameLength then []
  else
    let payload := appendU32 [] kManifestMagic
    let payload := appendU16 payload manifest.protocolVersion
    let payload := appendU16 payload (UInt16.ofNat manifest.filename.length)
    let payload := appendU64 payload manifest.fileSize
    let payload := appendU32 payload manifest.chunkSize
    let payload := appendU64 payload manifest.chunkCount
    let payload := appendU64 payload manifest.sessionId
    let payload := appendU16 payload 0
    let payload := payload ++ manifest.filename
    appendU32 [] (UInt32.ofNat payload.length) ++ payload

/-- `(file_size + chunk_size - 1) / chunk_size` in 64-bit arithmetic. -/
def expectedChunks (fileSize : UInt64) (chunkSize : UInt32) : UInt64 :=
  (fileSize + chunkSize.toUInt64 - 1)/chunkSize.toUInt64

def deserializeFileManifest (frame : Bytes) : Decode FileManifest := do
  rejectIf (frame.length < 4)
  let (payloadSize, _) ← readU32 frame 0
  rejectIf (payloadSize.toNat < kManifestHeaderSize ∨
    payloadSize.toNat > kManifestHeaderSize+kMaxFilenameLength ∨
    frame.length ≠ 4+payloadSize.toNat)
  let payload := frame.drop 4
  let (magic, offset) ← readU32 payload 0
  rejectIf (magic ≠ kManifestMagic)
  let (protocolVersion, offset) ← readU16 payload offset
  let (filenameSize, offset) ← readU16 payload offset
  let (fileSize, offset) ← readU64 payload offset
  let (chunkSize, offset) ← readU32 payload offset
  let (chunkCount, offset) ← readU64 payload offset
  let (sessionId, offset) ← readU64 payload offset
  let (_flags, offset) ← readU16 payload offset
  rejectIf (protocolVersion ≠ kProtocolVersion ∨ filenameSize = 0 ∨
    filenameSize.toNat > kMaxFilenameLength ∨ offset+filenameSize.toNat ≠ payload.length ∨
    chunkSize = 0)
  rejectIf (chunkCount ≠ expectedChunks fileSize chunkSize)
  return {
    filename := payload.drop offset
    fileSize, chunkSize, chunkCount
    fileSha256 := Vector.replicate 32 0
    protocolVersion, sessionId }

def sendFileManifest (socket : TcpSocket) (manifest : FileManifest) : Bool × TcpSocket :=
  let payload := serializeFileManifest manifest
  if payload = [] then (false, socket) else socket.sendAll payload

/-- The frame length is received and checked first, then the rest of the frame. -/
def receiveFileManifest (socket : TcpSocket) : Option FileManifest × TcpSocket :=
  match socket.recvExact 4 with
  | (none, socket) => (none, socket)
  | (some sizeFrame, socket) =>
    match readU32 sizeFrame 0 with
    | .error _ => (none, socket)
    | .ok (payloadSize, _) =>
      if payloadSize.toNat < kManifestHeaderSize ∨
          payloadSize.toNat > kManifestHeaderSize+kMaxFilenameLength then (none, socket)
      else
        match socket.recvExact payloadSize.toNat with
        | (none, socket) => (none, socket)
        | (some rest, socket) => ((deserializeFileManifest (sizeFrame ++ rest)).toOption, socket)

def manifestPayload (m : FileManifest) : Bytes :=
  toBE 4 kManifestMagic.toNat ++ (toBE 2 m.protocolVersion.toNat ++
    (toBE 2 (UInt16.ofNat m.filename.length).toNat ++ (toBE 8 m.fileSize.toNat ++
      (toBE 4 m.chunkSize.toNat ++ (toBE 8 m.chunkCount.toNat ++ (toBE 8 m.sessionId.toNat ++
        (toBE 2 (0 : UInt16).toNat ++ m.filename)))))))

theorem length_manifestPayload (m : FileManifest) :
    (manifestPayload m).length = kManifestHeaderSize+m.filename.length := by
  simp only [manifestPayload, List.length_append, length_toBE, kManifestHeaderSize]
  omega

theorem serializeFileManifest_eq (m : FileManifest) (h : m.filename.length ≤ kMaxFilenameLength) :
    serializeFileManifest m =
      toBE 4 (kManifestHeaderSize+m.filename.length) ++ manifestPayload m := by
  have hlt : kManifestHeaderSize+m.filename.length < 2^32 := by
    simp only [kManifestHeaderSize, kMaxFilenameLength] at h ⊢
    omega
  have hp := length_manifestPayload m
  rw [serializeFileManifest, if_neg (not_lt.mpr h)]
  simp only [appendU16_eq, appendU32_eq, appendU64_eq, List.nil_append, List.append_assoc]
  rw [← manifestPayload, hp, UInt32.toNat_ofNat_of_lt' hlt]

/-- The decoder on a frame whose length fields agree, field by field. -/
theorem deserializeFileManifest_eq (n : ℕ) (payload : Bytes) (hn : payload.length = n)
    (h1 : kManifestHeaderSize ≤ n) (h2 : n ≤ kManifestHeaderSize+kMaxFilenameLength) :
    deserializeFileManifest (toBE 4 n ++ payload) =
      let protocolVersion := UInt16.ofNat (ofBE (slice payload 4 2))
      let filenameSize := UInt16.ofNat (ofBE (slice payload 6 2))
      let fileSize := UInt64.ofNat (ofBE (slice payload 8 8))
      let chunkSize := UInt32.ofNat (ofBE (slice payload 16 4))
      let chunkCount := UInt64.ofNat (ofBE (slice payload 20 8))
      let sessionId := UInt64.ofNat (ofBE (slice payload 28 8))
      if UInt32.ofNat (ofBE (slice payload 0 4)) ≠ kManifestMagic ∨
          (protocolVersion ≠ kProtocolVersion ∨ filenameSize = 0 ∨
            filenameSize.toNat > kMaxFilenameLength ∨ 38+filenameSize.toNat ≠ payload.length ∨
            chunkSize = 0) ∨
          chunkCount ≠ expectedChunks fileSize chunkSize then .error .rejected
      else .ok {
        filename := payload.drop 38
        fileSize, chunkSize, chunkCount
        fileSha256 := Vector.replicate 32 0
        protocolVersion, sessionId } := by
  have hlow : 38 ≤ payload.length := by
    rw [hn]
    exact h1
  have hlt : n < 2^32 := by
    simp only [kManifestHeaderSize, kMaxFilenameLength] at h2
    omega
  have hframe : (toBE 4 n ++ payload).length = 4+n := by
    rw [List.length_append, length_toBE, hn]
  have hsize : (UInt32.ofNat (ofBE (slice (toBE 4 n ++ payload) 0 4))).toNat = n := by
    rw [slice_append_left _ _ 4 (length_toBE 4 n), ofBE_toBE_of_lt 4 n hlt,
      UInt32.toNat_ofNat_of_lt' hlt]
  have hdrop : (toBE 4 n ++ payload).drop 4 = payload := List.drop_left' (length_toBE 4 n)
  have hfits : ¬ (n < kManifestHeaderSize ∨ n > kManifestHeaderSize+kMaxFilenameLength ∨
      4+n ≠ 4+n) := by
    simp only [ne_eq, not_true_eq_false, or_false]
    omega
  have hmagic := readU32_eq payload 0 (by omega)
  have hversion := readU16_eq payload 4 (by omega)
  have hnameSize := readU16_eq payload 6 (by omega)
  have hfileSize := readU64_eq payload 8 (by omega)
  have hchunkSize := readU32_eq payload 16 (by omega)
  have hchunkCount := readU64_eq payload 20 (by omega)
  have hsession := readU64_eq payload 28 (by omega)
  have hflags := readU16_eq payload 36 (by omega)
  rw [deserializeFileManifest, readU32_eq (toBE 4 n ++ payload) 0 (by omega), hdrop]
  -- the checks that follow only compare the values that have been read
  generalize UInt32.ofNat (ofBE (slice (toBE 4 n ++ payload) 0 4)) = w at hsize ⊢
  generalize UInt32.ofNat (ofBE (slice payload 0 4)) = magic at hmagic ⊢
  generalize UInt16.ofNat (ofBE (slice payload 4 2)) = protocolVersion at hversion ⊢
  generalize UInt16.ofNat (ofBE (slice payload 6 2)) = filenameSize at hnameSize ⊢
  generalize UInt64.ofNat (ofBE (slice payload 8 8)) = fileSize at hfileSize ⊢
  generalize UInt32.ofNat (ofBE (slice payload 16 4)) = chunkSize at hchunkSize ⊢
  generalize UInt64.ofNat (ofBE (slice payload 20 8)) = chunkCount at hchunkCount ⊢
  generalize UInt64.ofNat (ofBE (slice payload 28 8)) = sessionId at hsession ⊢
  simp only [rejectIf_bind]
  rw [if_neg (by omega), ok_bind, hmagic, ok_bind, hsize, hframe, if_neg hfits]
  simp only [Nat.reduceAdd] at hversion hnameSize hfileSize hchunkSize
  simp only [Nat.reduceAdd] at hchunkCount hsession hflags
  rw [hversion, ok_bind, hnameSize, ok_bind, hfileSize, ok_bind, hchunkSize, ok_bind, hchunkCount,
    ok_bind, hsession, ok_bind, hflags, ok_bind, reject_or, reject_or]
  exact if_congr or_assoc rfl rfl

theorem expectedChunks_toNat (size : UInt64) (cs : UInt32) (hcs : cs ≠ 0)
    (hw : size.toNat+cs.toNat-1 < 2^64) :
    (expectedChunks size cs).toNat = size.toNat ⌈/⌉ cs.toNat := by
  have hpos : 0 < cs.toNat := Nat.pos_of_ne_zero fun h => hcs (UInt32.toNat_inj.mp h)
  have hlt := cs.toNat_lt
  have hs := size.toNat_lt
  rw [expectedChunks, UInt64.toNat_div, UInt64.toNat_sub, UInt64.toNat_add,
    UInt32.toNat_toUInt64, UInt64.toNat_one, Nat.ceilDiv_eq_add_pred_div]
  congr 1
  omega

/-- Past 64 bits the formula yields no chunks at all. -/
theorem expectedChunks_wraps (size : UInt64) (cs : UInt32)
    (hw : 2^64 ≤ size.toNat+cs.toNat-1) : expectedChunks size cs = 0 := by
  have hlt := cs.toNat_lt
  have hs := size.toNat_lt
  apply UInt64.toNat_inj.mp
  rw [expectedChunks, UInt64.toNat_div, UInt64.toNat_sub, UInt64.toNat_add,
    UInt32.toNat_toUInt64, UInt64.toNat_one]
  exact Nat.div_eq_of_lt (by omega)

/-- The manifests the encoder can put on the wire for the decoder to take. -/
structure FileManifest.Encodable (m : FileManifest) : Prop where
  version : m.protocolVersion = kProtocolVersion
  nameNonempty : 1 ≤ m.filename.length
  nameShort : m.filename.length ≤ kMaxFilenameLength
  chunkSizePos : m.chunkSize ≠ 0
  chunkCountExpected : m.chunkCount = expectedChunks m.fileSize m.chunkSize

/-- The manifest as the decoder rebuilds it: the digest is not part of the frame. -/
def FileManifest.withoutDigest (m : FileManifest) : FileManifest :=
  { m with fileSha256 := Vector.replicate 32 0 }

theorem deserialize_serializeFileManifest (m : FileManifest) (h : m.Encodable) :
    deserializeFileManifest (serializeFileManifest m) = .ok m.withoutDigest := by
  have hshort := h.nameShort
  have hlen : (UInt16.ofNat m.filename.length).toNat = m.filename.length :=
    UInt16.toNat_ofNat_of_lt' (by
      simp only [kMaxFilenameLength] at hshort
      exact hshort.trans_lt (by decide))
  have hne : UInt16.ofNat m.filename.length ≠ 0 := by
    intro h0
    rw [h0] at hlen
    have := h.nameNonempty
    rw [← hlen] at this
    exact absurd this (by decide)
  have hdrop : (manifestPayload m).drop 38 = m.filename := by
    simp only [manifestPayload, ← List.append_assoc]
    exact List.drop_left' (by simp only [List.length_append, length_toBE])
  rw [serializeFileManifest_eq m hshort, deserializeFileManifest_eq _ _
    (length_manifestPayload m) (Nat.le_add_right _ _) (Nat.add_le_add_left hshort _), hdrop,
    length_manifestPayload]
  simp only [manifestPayload, slice_append_right, slice_append_left, length_toBE, Nat.reduceSub,
    Nat.reduceLeDiff, Nat.le_refl, u16_ofBE_toBE, u32_ofBE_toBE, u64_ofBE_toBE]
  rw [if_neg]
  · rfl
  · simp only [h.version, hne, hlen, h.chunkSizePos, ← h.chunkCountExpected, kManifestHeaderSize,
      ne_eq, not_true_eq_false, not_lt.mpr hshort, or_self, not_false_eq_true]

/-- Every byte vector is rejected for its size, or is a length and a payload of that length. -/
theorem deserializeFileManifest_cases (frame : Bytes) :
    deserializeFileManifest frame = .error .rejected ∨
      ∃ payload, frame = toBE 4 payload.length ++ payload ∧
        kManifestHeaderSize ≤ payload.length ∧
        payload.length ≤ kManifestHeaderSize+kMaxFilenameLength := by
  by_cases h4 : frame.length < 4
  · rw [deserializeFileManifest, rejectIf_bind]
    exact Or.inl (if_pos h4)
  have hval : (UInt32.ofNat (ofBE (slice frame 0 4))).toNat = ofBE (slice frame 0 4) := by
    apply UInt32.toNat_ofNat_of_lt'
    have hlt := ofBE_lt (slice frame 0 4)
    rwa [length_slice frame 0 4 (by omega)] at hlt
  rw [deserializeFileManifest, readU32_eq frame 0 (by omega)]
  generalize UInt32.ofNat (ofBE (slice frame 0 4)) = w at hval ⊢
  simp only [rejectIf_bind, ok_bind]
  rw [if_neg h4]
  split
  · exact Or.inl rfl
  rename_i hsize
  simp only [hval, not_or, not_lt, ne_eq, not_not] at hsize
  have hdrop : (frame.drop 4).length = ofBE (slice frame 0 4) := by
    rw [List.length_drop]
    omega
  refine Or.inr ⟨frame.drop 4, ?_, by rw [hdrop]; exact hsize.1, by rw [hdrop]; exact hsize.2.1⟩
  rw [hdrop, toBE_ofBE_slice frame 0 4 (by omega)]
  exact (List.take_append_drop 4 frame).symm

/-- What acceptance says about the payload: the manifest's payload but for the two flag bytes. -/
theorem payload_of_accepted (frame : Bytes) (m : FileManifest)
    (h : deserializeFileManifest frame = .ok m) :
    m.Encodable ∧ m.fileSha256 = Vector.replicate 32 0 ∧ ∃ flags : Bytes, flags.length = 2 ∧
      frame = toBE 4 (kManifestHeaderSize+m.filename.length) ++
        ((manifestPayload m).take 36 ++ (flags ++ m.filename)) := by
  rcases deserializeFileManifest_cases frame with hr | ⟨payload, rfl, h1, h2⟩
  · rw [hr] at h
    cases h
  rw [deserializeFileManifest_eq payload.length payload rfl h1 h2] at h
  simp only at h
  split at h
  · cases h
  rename_i hok
  simp only [not_or, ne_eq, not_not, not_lt] at hok
  obtain ⟨hmagic, ⟨hv, hn0, hn, hlen, hcs⟩, hcc⟩ := hok
  obtain rfl := Except.ok.inj h
  have h38 : 38 ≤ payload.length := h1
  have hname : (payload.drop 38).length = (UInt16.ofNat (ofBE (slice payload 6 2))).toNat := by
    rw [List.length_drop]
    omega
  refine ⟨⟨hv, ?_, ?_, hcs, hcc⟩, rfl, slice payload 36 2, length_slice _ _ _ (by omega), ?_⟩
  · rw [hname]
    exact Nat.pos_of_ne_zero fun h0 => hn0 (UInt16.toNat_inj.mp h0)
  · rw [hname]
    exact hn
  -- each field printed again is the slice it was read from
  have h16 := u16_toBE_slice payload
  have h32 := u32_toBE_slice payload
  have h64 := u64_toBE_slice payload
  have hcut := slice_append_drop payload
  have hsizes : kManifestHeaderSize+(payload.drop 38).length = payload.length := by
    rw [List.length_drop, kManifestHeaderSize]
    omega
  rw [hsizes]
  congr 1
  simp only [manifestPayload, hname, UInt16.ofNat_toNat, ← hmagic]
  rw [h32 0 (by omega), h16 4 (by omega), h16 6 (by omega), h64 8 (by omega), h32 16 (by omega),
    h64 20 (by omega), h64 28 (by omega), hcut 36 2]
  simp only [← List.append_assoc]
  rw [List.append_assoc _ (toBE 2 _), List.take_left' (by
    simp only [List.length_append, length_slice _ _ _ (show 0+4 ≤ payload.length by omega),
      length_slice _ _ _ (show 4+2 ≤ payload.length by omega),
      length_slice _ _ _ (show 6+2 ≤ payload.length by omega),
      length_slice _ _ _ (show 8+8 ≤ payload.length by omega),
      length_slice _ _ _ (show 16+4 ≤ payload.length by omega),
      length_slice _ _ _ (show 20+8 ≤ payload.length by omega),
      length_slice _ _ _ (show 28+8 ≤ payload.length by omega)])]
  simp only [List.append_assoc]
  rw [hcut 28 8, hcut 20 8, hcut 16 4, hcut 8 8, hcut 6 2, hcut 4 2, hcut 0 4, List.drop_zero]

/-- Whatever bytes it is given, the decoder accepts only encodable manifests. -/
theorem encodable_of_accepted (frame : Bytes) (m : FileManifest)
    (h : deserializeFileManifest frame = .ok m) :
    m.Encodable ∧ m.fileSha256 = Vector.replicate 32 0 :=
  let hp := payload_of_accepted frame m h
  ⟨hp.1, hp.2.1⟩

def parseFileManifest (bs : Bytes) : Option FileManifest × ℕ :=
  if bs.length < 4 then (none, 4)
  else
    let n := ofBE (bs.take 4)
    if n < kManifestHeaderSize ∨ n > kManifestHeaderSize+kMaxFilenameLength then (none, 4)
    else if bs.length < 4+n then (none, 4+n)
    else ((deserializeFileManifest (bs.take (4+n))).toOption, 4+n)

theorem receiveFileManifest_reads : TcpSocket.Reads receiveFileManifest parseFileManifest := by
  intro s ho
  obtain ⟨k, hk⟩ := s.recvExact_eq 4 ho
  rw [receiveFileManifest, hk, parseFileManifest]
  by_cases h4 : 4 ≤ s.incoming.length
  · have hlen : (s.incoming.take 4).length = 4 := by rw [List.length_take]; omega
    have hval : (UInt32.ofNat (ofBE (s.incoming.take 4))).toNat = ofBE (s.incoming.take 4) := by
      apply UInt32.toNat_ofNat_of_lt'
      have := ofBE_lt (s.incoming.take 4)
      rwa [hlen] at this
    rw [if_pos h4, if_neg (not_lt.mpr h4)]
    simp only [readU32_eq (s.incoming.take 4) 0 (by omega), slice_self _ 4 hlen, hval]
    generalize ofBE (s.incoming.take 4) = n
    by_cases hn : n < kManifestHeaderSize ∨ n > kManifestHeaderSize+kMaxFilenameLength
    · exact ⟨k, by rw [if_pos hn, if_pos hn]⟩
    · obtain ⟨k', hk'⟩ := (s.skip 4 k).recvExact_eq n (by rwa [TcpSocket.skip_isOpen])
      refine ⟨k', ?_⟩
      rw [if_neg hn, if_neg hn, hk', TcpSocket.skip_skip, TcpSocket.skip_incoming,
        List.length_drop]
      by_cases hrest : s.incoming.length < 4+n
      · rw [if_neg (by omega), if_pos hrest]
      · rw [if_pos (by omega), if_neg hrest, List.take_add]
  · exact ⟨k, by rw [if_neg h4, if_pos (not_le.mp h4)]⟩

theorem parseFileManifest_settles : TcpSocket.Settles parseFileManifest := by
  intro bs rest m hm
  unfold parseFileManifest at hm ⊢
  split at hm
  · cases hm
  · rename_i h4
    simp only at hm
    split at hm
    · cases hm
    · rename_i hn
      split at hm
      · cases hm
      · rename_i hlen
        have hlong (k : ℕ) (hk : k ≤ bs.length) : k ≤ (bs ++ rest).length := by
          rw [List.length_append]
          omega
        rw [not_lt] at h4 hlen
        rw [if_neg (not_lt.mpr h4), if_neg (not_lt.mpr (hlong 4 h4))]
        simp only [List.take_append_of_le_length h4, hn, ↓reduceIte, not_lt.mpr hlen,
          not_lt.mpr (hlong _ hlen), List.take_append_of_le_length hlen, true_and]
        exact hlen

theorem parseFileManifest_append (m : FileManifest) (h : m.Encodable) (rest : Bytes) :
    parseFileManifest (serializeFileManifest m ++ rest) =
      (some m.withoutDigest, (serializeFileManifest m).length) := by
  have hs := serializeFileManifest_eq m h.nameShort
  have hp := length_manifestPayload m
  have hshort := h.nameShort
  have hlen : (serializeFileManifest m).length = 4+(kManifestHeaderSize+m.filename.length) := by
    rw [hs, List.length_append, length_toBE, hp]
  have htake : (serializeFileManifest m ++ rest).take 4 =
      toBE 4 (kManifestHeaderSize+m.filename.length) := by
    rw [hs, List.append_assoc, List.take_left' (length_toBE 4 _)]
  have hval : ofBE ((serializeFileManifest m ++ rest).take 4) =
      kManifestHeaderSize+m.filename.length := by
    rw [htake, ofBE_toBE_of_lt 4 _ (by
      simp only [kManifestHeaderSize, kMaxFilenameLength] at hshort ⊢
      omega)]
  rw [parseFileManifest, if_neg (by rw [List.length_append, hlen]; omega)]
  simp only [hval]
  rw [if_neg (by omega), if_neg (by rw [List.length_append, hlen]; omega), ← hlen,
    List.take_left, deserialize_serializeFileManifest m h]
  rfl

/-- A manifest the encoder wrote is received as it is, whatever follows it in the stream. -/
theorem receive_serializeFileManifest (m : FileManifest) (h : m.Encodable) (s : TcpSocket)
    (ho : s.isOpen = true) (rest : Bytes) (hin : s.incoming = serializeFileManifest m ++ rest) :
    ∃ k, receiveFileManifest s =
      (some m.withoutDigest, s.skip (serializeFileManifest m).length k) := by
  obtain ⟨k, hk⟩ := receiveFileManifest_reads s ho
  rw [hin, parseFileManifest_append m h rest] at hk
  exact ⟨k, hk⟩

/-- A manifest that is received is encodable, and the stream goes on behind its frame. -/
theorem received_of_receiveFileManifest (s s1 : TcpSocket) (m : FileManifest)
    (ho : s.isOpen = true) (h : receiveFileManifest s = (some m, s1)) :
    m.Encodable ∧ ∃ k, s1 = s.skip (parseFileManifest s.incoming).2 k := by
  obtain ⟨k, hk⟩ := receiveFileManifest_reads s ho
  rw [h, Prod.mk.injEq] at hk
  refine ⟨?_, k, hk.2⟩
  have hparse := hk.1.symm
  unfold parseFileManifest at hparse
  split at hparse
  · cases hparse
  simp only at hparse
  split at hparse
  · cases hparse
  split at hparse
  · cases hparse
  simp only at hparse
  generalize hd : deserializeFileManifest (s.incoming.take (4+ofBE (s.incoming.take 4))) = decoded
    at hparse
  cases decoded with
  | error e => cases hparse
  | ok m' =>
    obtain rfl := Option.some.inj hparse
    exact (encodable_of_accepted _ _ hd).1

theorem encodable_of_domain (m : FileManifest) (hv : m.protocolVersion = kProtocolVersion)
    (hn : 1 ≤ m.filename.length) (hs : m.filename.length ≤ kMaxFilenameLength)
    (hcs : m.chunkSize ≠ 0) (hw : m.fileSize.toNat+m.chunkSize.toNat-1 < 2^64)
    (hc : m.chunkCount.toNat = m.fileSize.toNat ⌈/⌉ m.chunkSize.toNat) : m.Encodable :=
  ⟨hv, hn, hs, hcs, UInt64.toNat_inj.mp (hc.trans (expectedChunks_toNat _ _ hcs hw).symm)⟩

/-- Writing two bytes at the end of the fixed header changes the flags alone. -/
theorem set_flags (m : FileManifest) (h : m.filename.length ≤ kMaxFilenameLength) (a b : UInt8) :
    ((serializeFileManifest m).set 40 a).set 41 b =
      toBE 4 (kManifestHeaderSize+m.filename.length) ++
        ((manifestPayload m).take 36 ++ ([a, b] ++ m.filename)) := by
  have hlen : (toBE 4 (kManifestHeaderSize+m.filename.length) ++
      (manifestPayload m).take 36).length = 40 := by
    rw [List.length_append, length_toBE, List.length_take, length_manifestPayload,
      kManifestHeaderSize, Nat.min_eq_left (by omega)]
  have hrest : (manifestPayload m).drop 36 = 0 :: 0 :: m.filename := by
    simp only [manifestPayload, ← List.append_assoc]
    rw [List.append_assoc _ (toBE 2 _), List.drop_left' (by
      simp only [List.length_append, length_toBE])]
    rfl
  rw [serializeFileManifest_eq m h, ← List.take_append_drop 36 (manifestPayload m), hrest,
    List.take_left' (by rw [List.length_take, length_manifestPayload, kManifestHeaderSize]; omega),
    ← List.append_assoc, ← List.append_assoc]
  generalize toBE 4 (kManifestHeaderSize+m.filename.length) ++ (manifestPayload m).take 36 = fixed
    at hlen ⊢
  rw [List.set_append_right _ _ hlen.le, hlen, List.set_append_right _ _ (by omega), hlen]
  rfl

/-- The manifest codec is exact in both directions and stays inside the vector it reads. -/
theorem fileManifest_codec_exact :
    (∀ m : FileManifest, m.protocolVersion = kProtocolVersion → 1 ≤ m.filename.length →
      m.filename.length ≤ kMaxFilenameLength → m.chunkSize ≠ 0 →
      m.fileSize.toNat+m.chunkSize.toNat-1 < 2^64 →
      m.chunkCount.toNat = m.fileSize.toNat ⌈/⌉ m.chunkSize.toNat →
      deserializeFileManifest (serializeFileManifest m) = .ok m.withoutDigest) ∧
    (∀ frame m, deserializeFileManifest frame = .ok m →
      ∃ a b, frame = ((serializeFileManifest m).set 40 a).set 41 b) ∧
    ∀ frame, deserializeFileManifest frame ≠ .error .outOfBounds := by
  refine ⟨fun m hv hn hs hcs hw hc => ?_, fun frame m h => ?_, fun frame h => ?_⟩
  · exact deserialize_serializeFileManifest m (encodable_of_domain m hv hn hs hcs hw hc)
  · obtain ⟨henc, -, flags, hflags, hframe⟩ := payload_of_accepted frame m h
    obtain ⟨a, b, rfl⟩ := List.length_eq_two.mp hflags
    exact ⟨a, b, by rw [hframe, set_flags m henc.nameShort]⟩
  · rcases deserializeFileManifest_cases frame with hr | ⟨payload, rfl, h1, h2⟩
    · rw [hr] at h
      cases h
    · rw [deserializeFileManifest_eq payload.length payload rfl h1 h2] at h
      simp only at h
      split at h <;> cases h

end PacketBridge
