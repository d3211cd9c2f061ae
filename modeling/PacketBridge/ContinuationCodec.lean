import PacketBridge.ByteCodec
import PacketBridge.TcpSocket

namespace PacketBridge
open Foundations

def kContinueRequestMagic : UInt32 := 0x50424352
def kMaxChunkIndexes : UInt64 := 1000000
def kContinueFixedSize : ℕ := 4+3*8

def serializeContinueRequest (request : ContinueRequest) : Bytes :=
  let payload := appendU32 [] kContinueRequestMagic
  let payload := appendU64 payload request.sessionId
  let payload := appendU64 payload request.totalChunks
  let payload := appendU64 payload (UInt64.ofNat request.missingChunkIndexes.length)
  request.missingChunkIndexes.foldl appendU64 payload

def readIndexes (payload : Bytes) : ℕ → ℕ → Decode (List UInt64)
  | 0, _ => .ok []
  | n+1, offset => do
    let (index, offset) ← readU64 payload offset
    let rest ← readIndexes payload n offset
    return index :: rest

def deserializeContinueRequest (payload : Bytes) : Decode ContinueRequest := do
  rejectIf (payload.length < kContinueFixedSize)
  let (magic, offset) ← readU32 payload 0
  rejectIf (magic ≠ kContinueRequestMagic)
  let (sessionId, offset) ← readU64 payload offset
  let (totalChunks, offset) ← readU64 payload offset
  let (missingCount, offset) ← readU64 payload offset
  rejectIf (missingCount > kMaxChunkIndexes ∨
    payload.length ≠ kContinueFixedSize+missingCount.toNat*8)
  let missingChunkIndexes ← readIndexes payload missingCount.toNat offset
  return { sessionId, totalChunks, missingChunkIndexes }

def sendContinueRequest (socket : TcpSocket) (request : ContinueRequest) : Bool × TcpSocket :=
  socket.sendAll (serializeContinueRequest request)

/-- The fixed part is received first; its count says how many bytes follow. -/
def receiveContinueRequest (socket : TcpSocket) : Option ContinueRequest × TcpSocket :=
  match socket.recvExact kContinueFixedSize with
  | (none, socket) => (none, socket)
  | (some fixedPayload, socket) =>
    match readU64 fixedPayload (4+2*8) with
    | .error _ => (none, socket)
    | .ok (missingCount, _) =>
      if missingCount > kMaxChunkIndexes then (none, socket)
      else
        let indexBytes := missingCount.toNat*8
        if indexBytes > 0 then
          match socket.recvExact indexBytes with
          | (none, socket) => (none, socket)
          | (some indexes, socket) =>
            ((deserializeContinueRequest (fixedPayload ++ indexes)).toOption, socket)
        else ((deserializeContinueRequest fixedPayload).toOption, socket)

/-- The loop of `validate_continue_request`, with the index before, if there was one. -/
def validateIndexes (chunkCount : UInt64) : Option UInt64 → List UInt64 → Bool
  | _, [] => true
  | previous, index :: rest =>
    if index ≥ chunkCount ∨ (∃ p ∈ previous, index ≤ p) then false
    else validateIndexes chunkCount (some index) rest

def validateContinueRequest (manifest : FileManifest) (request : ContinueRequest) : Bool :=
  if request.sessionId ≠ manifest.sessionId ∨ request.totalChunks ≠ manifest.chunkCount then false
  else validateIndexes manifest.chunkCount none request.missingChunkIndexes

def indexBytes (indexes : List UInt64) : Bytes := indexes.flatMap fun index => toBE 8 index.toNat

@[simp] theorem length_indexBytes (indexes : List UInt64) :
    (indexBytes indexes).length = indexes.length*8 := by
  induction indexes with
  | nil => rfl
  | cons i is ih =>
    rw [indexBytes, List.flatMap_cons, List.length_append, ← indexBytes, ih, length_toBE,
      List.length_cons]
    omega

theorem foldl_appendU64 (indexes : List UInt64) (payload : Bytes) :
    indexes.foldl appendU64 payload = payload ++ indexBytes indexes := by
  induction indexes generalizing payload with
  | nil => exact (List.append_nil payload).symm
  | cons i is ih =>
    rw [List.foldl_cons, ih, appendU64_eq, List.append_assoc, indexBytes, indexBytes,
      List.flatMap_cons]

def continueFixed (r : ContinueRequest) : Bytes :=
  toBE 4 kContinueRequestMagic.toNat ++ (toBE 8 r.sessionId.toNat ++
    (toBE 8 r.totalChunks.toNat ++ toBE 8 (UInt64.ofNat r.missingChunkIndexes.length).toNat))

@[simp] theorem length_continueFixed (r : ContinueRequest) :
    (continueFixed r).length = kContinueFixedSize := by
  simp only [continueFixed, List.length_append, length_toBE]
  rfl

theorem serializeContinueRequest_eq (r : ContinueRequest) :
    serializeContinueRequest r = continueFixed r ++ indexBytes r.missingChunkIndexes := by
  simp only [serializeContinueRequest, foldl_appendU64, appendU32_eq, appendU64_eq,
    List.nil_append, continueFixed, List.append_assoc]

theorem length_serializeContinueRequest (r : ContinueRequest) :
    (serializeContinueRequest r).length =
      kContinueFixedSize+r.missingChunkIndexes.length*8 := by
  rw [serializeContinueRequest_eq, List.length_append, length_continueFixed, length_indexBytes]

theorem readIndexes_eq (a : Bytes) (indexes : List UInt64) :
    readIndexes (a ++ indexBytes indexes) indexes.length a.length = .ok indexes := by
  induction indexes generalizing a with
  | nil => rfl
  | cons i is ih =>
    have hcons : indexBytes (i :: is) = toBE 8 i.toNat ++ indexBytes is := List.flatMap_cons
    have hread : readU64 (a ++ indexBytes (i :: is)) a.length = .ok (i, a.length+8) := by
      rw [readU64_eq _ _ (by
        rw [List.length_append, length_indexBytes, List.length_cons]
        omega), slice_append_right _ _ _ _ le_rfl, Nat.sub_self, hcons,
        slice_append_left _ _ 8 (length_toBE 8 _), u64_ofBE_toBE]
    have hrest := ih (a ++ toBE 8 i.toNat)
    rw [List.append_assoc, ← hcons, List.length_append, length_toBE] at hrest
    rw [List.length_cons, readIndexes, hread, ok_bind]
    simp only [hrest]
    rfl

/-- The decoder on the encoder's output: everything rests on the count. -/
theorem deserialize_serializeContinueRequest (r : ContinueRequest)
    (h : r.missingChunkIndexes.length < 2^64) :
    deserializeContinueRequest (serializeContinueRequest r) =
      if r.missingChunkIndexes.length ≤ kMaxChunkIndexes.toNat then .ok r
      else .error .rejected := by
  have hlen := length_serializeContinueRequest r
  have hcount : (UInt64.ofNat r.missingChunkIndexes.length).toNat =
      r.missingChunkIndexes.length := UInt64.toNat_ofNat_of_lt' h
  have hmagic : readU32 (serializeContinueRequest r) 0 = .ok (kContinueRequestMagic, 4) := by
    rw [readU32_eq _ 0 (by rw [hlen, kContinueFixedSize]; omega), serializeContinueRequest_eq,
      continueFixed, List.append_assoc, slice_append_left _ _ 4 (length_toBE 4 _), u32_ofBE_toBE]
  have hfield (off : ℕ) (v : UInt64) (h28 : off+8 ≤ 28)
      (hv : slice (serializeContinueRequest r) off 8 = toBE 8 v.toNat) :
      readU64 (serializeContinueRequest r) off = .ok (v, off+8) := by
    rw [readU64_eq _ off (by rw [hlen, kContinueFixedSize]; omega), hv, u64_ofBE_toBE]
  have hsession := hfield 4 r.sessionId (by decide) (by
    simp only [serializeContinueRequest_eq, continueFixed, List.append_assoc, slice_append_right,
      slice_append_left, length_toBE, Nat.reduceSub, Nat.le_refl])
  have htotal := hfield 12 r.totalChunks (by decide) (by
    simp only [serializeContinueRequest_eq, continueFixed, List.append_assoc, slice_append_right,
      slice_append_left, length_toBE, Nat.reduceSub, Nat.le_refl, Nat.reduceLeDiff])
  have hmissing := hfield 20 (UInt64.ofNat r.missingChunkIndexes.length) (by decide) (by
    simp only [serializeContinueRequest_eq, continueFixed, List.append_assoc, slice_append_right,
      slice_append_left, length_toBE, Nat.reduceSub, Nat.le_refl, Nat.reduceLeDiff])
  have hlist := readIndexes_eq (continueFixed r) r.missingChunkIndexes
  rw [← serializeContinueRequest_eq, length_continueFixed] at hlist
  simp only [deserializeContinueRequest, rejectIf_bind]
  rw [if_neg (by omega), hmagic, ok_bind, if_neg (by simp only [ne_eq, not_true_eq_false,
    not_false_eq_true]), hsession, ok_bind, htotal, ok_bind, hmissing, ok_bind]
  by_cases hle : r.missingChunkIndexes.length ≤ kMaxChunkIndexes.toNat
  · rw [if_neg (by
      simp only [hcount, hlen, ne_eq, not_true_eq_false, or_false, gt_iff_lt,
        UInt64.lt_iff_toNat_lt, not_lt]
      exact hle), if_pos hle, hcount]
    change (readIndexes _ _ kContinueFixedSize >>= _) = _
    rw [hlist, ok_bind]
    rfl
  · rw [if_pos (Or.inl (by
      rw [gt_iff_lt, UInt64.lt_iff_toNat_lt, hcount]
      omega)), if_neg hle]

/-- The loop on any vector that is long enough: the indexes it reads are the bytes it is pointed
at. -/
theorem readIndexes_of_le (payload : Bytes) (n off : ℕ) (h : off+n*8 ≤ payload.length) :
    ∃ indexes, readIndexes payload n off = .ok indexes ∧ indexes.length = n ∧
      indexBytes indexes = slice payload off (n*8) := by
  induction n generalizing off with
  | zero =>
    refine ⟨[], rfl, rfl, ?_⟩
    rw [Nat.zero_mul, slice, List.take_zero]
    rfl
  | succ n ih =>
    obtain ⟨indexes, hread, hlen, hbytes⟩ := ih (off+8) (by omega)
    refine ⟨UInt64.ofNat (ofBE (slice payload off 8)) :: indexes, ?_, ?_, ?_⟩
    · rw [readIndexes, readU64_eq _ _ (by omega), ok_bind]
      simp only [hread]
      rfl
    · rw [List.length_cons, hlen]
    · have hcons : indexBytes (UInt64.ofNat (ofBE (slice payload off 8)) :: indexes) =
          toBE 8 (UInt64.ofNat (ofBE (slice payload off 8))).toNat ++ indexBytes indexes :=
        List.flatMap_cons
      rw [hcons, u64_toBE_slice _ _ (by omega), hbytes, slice_append_slice, Nat.succ_mul,
        Nat.add_comm (n*8)]

/-- The decoder on a vector that holds the fixed part, field by field. -/
theorem deserializeContinueRequest_eq (payload : Bytes)
    (h : kContinueFixedSize ≤ payload.length) :
    deserializeContinueRequest payload =
      if UInt32.ofNat (ofBE (slice payload 0 4)) ≠ kContinueRequestMagic ∨
          kMaxChunkIndexes.toNat < ofBE (slice payload 20 8) ∨
          payload.length ≠ kContinueFixedSize+ofBE (slice payload 20 8)*8 then .error .rejected
      else do
        let missingChunkIndexes ← readIndexes payload (ofBE (slice payload 20 8)) 28
        return {
          sessionId := UInt64.ofNat (ofBE (slice payload 4 8))
          totalChunks := UInt64.ofNat (ofBE (slice payload 12 8))
          missingChunkIndexes } := by
  have h28 : 28 ≤ payload.length := h
  have hcount := u64_toNat_slice payload 20 (by omega)
  simp only [deserializeContinueRequest, rejectIf_bind, not_lt.mpr h, ↓reduceIte,
    readU32_eq payload 0 (by omega), readU64_eq payload 4 (by omega),
    readU64_eq payload 12 (by omega), readU64_eq payload 20 (by omega), ok_bind, Nat.zero_add,
    Nat.reduceAdd, gt_iff_lt, UInt64.lt_iff_toNat_lt, hcount, reject_or]

/-- Whatever vector is accepted, its list is within the limit and it is the one the encoder
writes. -/
theorem serialize_deserializeContinueRequest (payload : Bytes) (r : ContinueRequest)
    (hd : deserializeContinueRequest payload = .ok r) :
    r.missingChunkIndexes.length ≤ kMaxChunkIndexes.toNat ∧
      serializeContinueRequest r = payload := by
  by_cases hshort : payload.length < kContinueFixedSize
  · rw [deserializeContinueRequest, rejectIf_bind, if_pos hshort] at hd
    cases hd
  · rw [not_lt] at hshort
    have h28 : 28 ≤ payload.length := hshort
    rw [deserializeContinueRequest_eq payload hshort] at hd
    by_cases hbad : UInt32.ofNat (ofBE (slice payload 0 4)) ≠ kContinueRequestMagic ∨
        kMaxChunkIndexes.toNat < ofBE (slice payload 20 8) ∨
        payload.length ≠ kContinueFixedSize+ofBE (slice payload 20 8)*8
    · rw [if_pos hbad] at hd
      cases hd
    · rw [if_neg hbad] at hd
      rw [not_or, not_or, not_not, not_not, not_lt] at hbad
      obtain ⟨hm, hlimit, hsize⟩ := hbad
      have hsize28 : payload.length = 28+ofBE (slice payload 20 8)*8 := hsize
      obtain ⟨indexes, hread, hlen, hbytes⟩ := readIndexes_of_le payload _ 28 hsize28.ge
      rw [hread, ok_bind] at hd
      obtain rfl := Except.ok.inj hd
      have hcount : UInt64.ofNat indexes.length = UInt64.ofNat (ofBE (slice payload 20 8)) := by
        rw [hlen]
      refine ⟨hlen.trans_le hlimit, ?_⟩
      rw [serializeContinueRequest_eq, continueFixed, ← hm]
      simp only [hcount, hbytes, u32_toBE_slice payload 0 (by omega),
        u64_toBE_slice payload 4 (by omega), u64_toBE_slice payload 12 (by omega),
        u64_toBE_slice payload 20 (by omega)]
      rw [slice_append_slice payload 12 8 8, slice_append_slice payload 4 8 16,
        slice_append_slice payload 0 4 24, slice_append_slice payload 0 28, ← hsize28]
      exact slice_self payload _ rfl

/-- No read of the decoder is past the end of its vector, whatever count stands in it. -/
theorem deserializeContinueRequest_inBounds (payload : Bytes) :
    deserializeContinueRequest payload ≠ .error .outOfBounds := by
  intro h
  by_cases hshort : payload.length < kContinueFixedSize
  · rw [deserializeContinueRequest, rejectIf_bind, if_pos hshort] at h
    cases h
  · rw [deserializeContinueRequest_eq payload (not_lt.mp hshort)] at h
    split at h
    · cases h
    · rename_i hbad
      rw [not_or, not_or, not_not, not_not] at hbad
      have hsize : payload.length = 28+ofBE (slice payload 20 8)*8 := hbad.2.2
      obtain ⟨indexes, hread, -⟩ := readIndexes_of_le payload _ 28 hsize.ge
      rw [hread] at h
      cases h

def parseContinueRequest (bs : Bytes) : Option ContinueRequest × ℕ :=
  if bs.length < kContinueFixedSize then (none, kContinueFixedSize)
  else
    let missingCount := ofBE (slice bs 20 8)
    if missingCount > kMaxChunkIndexes.toNat then (none, kContinueFixedSize)
    else if bs.length < kContinueFixedSize+missingCount*8 then
      (none, kContinueFixedSize+missingCount*8)
    else ((deserializeContinueRequest (bs.take (kContinueFixedSize+missingCount*8))).toOption,
      kContinueFixedSize+missingCount*8)

theorem receiveContinueRequest_reads :
    TcpSocket.Reads receiveContinueRequest parseContinueRequest := by
  intro s ho
  obtain ⟨k, hk⟩ := s.recvExact_eq kContinueFixedSize ho
  rw [receiveContinueRequest, hk, parseContinueRequest]
  by_cases hfix : kContinueFixedSize ≤ s.incoming.length
  · have hfix' : 28 ≤ s.incoming.length := hfix
    have hlen : (s.incoming.take kContinueFixedSize).length = 28 := by
      rw [List.length_take]
      exact Nat.min_eq_left hfix
    have hslice : slice (s.incoming.take kContinueFixedSize) 20 8 = slice s.incoming 20 8 := by
      rw [slice, slice, List.drop_take, List.take_take]
      rfl
    have hval : (UInt64.ofNat (ofBE (slice s.incoming 20 8))).toNat =
        ofBE (slice s.incoming 20 8) := by
      apply UInt64.toNat_ofNat_of_lt'
      have hlt := ofBE_lt (slice s.incoming 20 8)
      rwa [length_slice s.incoming 20 8 (by omega)] at hlt
    rw [if_pos hfix, if_neg (not_lt.mpr hfix)]
    simp only [Nat.reduceMul, Nat.reduceAdd,
      readU64_eq (s.incoming.take kContinueFixedSize) 20 (by omega), hslice, gt_iff_lt,
      UInt64.lt_iff_toNat_lt, hval]
    generalize ofBE (slice s.incoming 20 8) = n
    by_cases hn : kMaxChunkIndexes.toNat < n
    · exact ⟨k, by rw [if_pos hn, if_pos hn]⟩
    · rw [if_neg hn, if_neg hn]
      by_cases hz : 0 < n*8
      · obtain ⟨k', hk'⟩ :=
          (s.skip kContinueFixedSize k).recvExact_eq (n*8) (by rwa [TcpSocket.skip_isOpen])
        refine ⟨k', ?_⟩
        rw [if_pos hz, hk', TcpSocket.skip_skip, TcpSocket.skip_incoming, List.length_drop]
        by_cases hrest : s.incoming.length < kContinueFixedSize+n*8
        · rw [if_neg (by omega), if_pos hrest]
        · rw [if_pos (by omega), if_neg hrest, List.take_add]
      · have hn0 : n = 0 := by omega
        exact ⟨k, by rw [if_neg hz, hn0, Nat.zero_mul, Nat.add_zero,
          if_neg (not_lt.mpr hfix)]⟩
  · exact ⟨k, by rw [if_neg hfix, if_pos (not_le.mp hfix)]⟩

/-- The request the encoder wrote is received exactly when its list is within the limit. -/
theorem parseContinueRequest_append (r : ContinueRequest) (rest : Bytes)
    (h : r.missingChunkIndexes.length < 2^64) :
    parseContinueRequest (serializeContinueRequest r ++ rest) =
      if r.missingChunkIndexes.length ≤ kMaxChunkIndexes.toNat then
        (some r, (serializeContinueRequest r).length)
      else (none, kContinueFixedSize) := by
  have hlen := length_serializeContinueRequest r
  have hcount : ofBE (slice (serializeContinueRequest r ++ rest) 20 8) =
      r.missingChunkIndexes.length := by
    simp only [serializeContinueRequest_eq, continueFixed, List.append_assoc, slice_append_right,
      slice_append_left, length_toBE, Nat.reduceSub, Nat.le_refl, Nat.reduceLeDiff]
    rw [UInt64.toNat_ofNat_of_lt' h, ofBE_toBE_of_lt 8 _ (by exact h)]
  rw [parseContinueRequest, if_neg (by rw [List.length_append, hlen]; omega)]
  simp only [hcount]
  by_cases hle : r.missingChunkIndexes.length ≤ kMaxChunkIndexes.toNat
  · rw [if_neg (not_lt.mpr hle), if_neg (by rw [List.length_append, hlen]; omega), ← hlen,
      List.take_left, deserialize_serializeContinueRequest r h, if_pos hle, if_pos hle]
    rfl
  · rw [if_pos (not_le.mp hle), if_neg hle]

/-- The request codec is exact on the lists within the limit, and the stream reader, which trusts
the count before it has seen the magic number, follows it. -/
theorem continueRequest_codec :
    TakesEncoding (fun r : ContinueRequest => r.missingChunkIndexes.length ≤ kMaxChunkIndexes.toNat)
      serializeContinueRequest (fun payload => (deserializeContinueRequest payload).toOption)
      parseContinueRequest := by
  have hshort (r : ContinueRequest)
      (hr : r.missingChunkIndexes.length ≤ kMaxChunkIndexes.toNat) :
      r.missingChunkIndexes.length < 2^64 := hr.trans_lt kMaxChunkIndexes.toNat_lt
  refine ⟨⟨?_, ?_⟩, ?_, ?_⟩
  · intro r hr
    rw [deserialize_serializeContinueRequest r (hshort r hr), if_pos hr]
    rfl
  · intro payload r hd
    rw [toOption_eq_some] at hd
    exact serialize_deserializeContinueRequest payload r hd
  · intro r rest hr
    rw [parseContinueRequest_append r rest (hshort r hr), if_pos hr]
  · intro bs r hd
    unfold parseContinueRequest at hd ⊢
    split at hd
    · cases hd
    · simp only at hd ⊢
      split at hd
      · cases hd
      · split at hd
        · cases hd
        · rename_i h1 h2 h3
          rw [if_neg h1, if_neg h2, if_neg h3]
          exact hd

/-- The request codec gives every request back, accepts nothing but encodings, and the socket reader
succeeds exactly on the streams that begin with an accepted vector and consumes that vector. -/
theorem continueRequest_codec_exact :
    (∀ r : ContinueRequest, r.missingChunkIndexes.length ≤ 1000000 →
      deserializeContinueRequest (serializeContinueRequest r) = .ok r) ∧
    (∀ payload r, deserializeContinueRequest payload = .ok r →
      payload = serializeContinueRequest r) ∧
    ∀ s : TcpSocket, s.isOpen = true → ∀ r,
      ((receiveContinueRequest s).1 = some r ↔
        ∃ front, front <+: s.incoming ∧ deserializeContinueRequest front = .ok r) ∧
      ∀ front rest, s.incoming = front ++ rest → deserializeContinueRequest front = .ok r →
        (receiveContinueRequest s).2.incoming = rest := by
  have hcodec := continueRequest_codec
  refine ⟨?_, ?_, ?_⟩
  · intro r hr
    rw [← toOption_eq_some]
    exact hcodec.decode_encode r hr
  · intro payload r hd
    exact (serialize_deserializeContinueRequest payload r hd).2.symm
  · intro s ho r
    have hreads := receiveContinueRequest_reads.takesExactly hcodec s ho r
    simp only [toOption_eq_some] at hreads
    exact hreads

/-- The validation loop accepts exactly the ascending lists of indexes in range. -/
theorem validateIndexes_iff (chunkCount : UInt64) (previous : Option UInt64)
    (indexes : List UInt64) :
    validateIndexes chunkCount previous indexes = true ↔
      (∀ i ∈ indexes, i < chunkCount) ∧ (∀ p ∈ previous, ∀ i ∈ indexes, p < i) ∧
        indexes.Pairwise (· < ·) := by
  -- the induction is on the indexes; each is the `previous` of those behind it
  induction indexes generalizing previous with
  | nil => simp [validateIndexes]
  | cons i is ih =>
    rw [validateIndexes]
    split
    · rename_i hbad
      constructor
      · intro h
        cases h
      · rintro ⟨hr, hp, -⟩
        rcases hbad with hge | ⟨p, hpm, hip⟩
        · exact absurd (hr i List.mem_cons_self) (UInt64.not_lt.mpr hge)
        · exact absurd (hp p hpm i List.mem_cons_self) (UInt64.not_lt.mpr hip)
    · rename_i hok
      simp only [not_or, not_exists, not_and, UInt64.not_le, ge_iff_le] at hok
      rw [ih, List.pairwise_cons]
      constructor
      · rintro ⟨hr, hp, hs⟩
        have hi := hp i rfl
        refine ⟨List.forall_mem_cons.mpr ⟨hok.1, hr⟩, fun p hpm =>
          List.forall_mem_cons.mpr ⟨hok.2 p hpm, fun j hj => ?_⟩, hi, hs⟩
        exact UInt64.lt_trans (hok.2 p hpm) (hi j hj)
      · rintro ⟨hr, -, hi, hs⟩
        refine ⟨(List.forall_mem_cons.mp hr).2, fun p hpm => ?_, hs⟩
        obtain rfl := Option.some.inj hpm
        exact hi

end PacketBridge
