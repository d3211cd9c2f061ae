import PacketBridge.Receiver
import PacketBridge.ReceiverLoop
import PacketBridge.SenderRun
import Mathlib.Order.CompletePartialOrder

namespace PacketBridge
open Foundations

def ChunkHeader.range (header : ChunkHeader) : Set ℕ :=
  Set.Ico header.byteOffset.toNat (header.byteOffset.toNat+header.payloadSize.toNat)

/-- The manifest announces as many chunks as its sizes make. -/
structure FileManifest.CoversFile (m : FileManifest) : Prop where
  chunkSizePos : m.chunkSize ≠ 0
  count : m.chunkCount.toNat = m.fileSize.toNat ⌈/⌉ m.chunkSize.toNat

theorem FileManifest.CoversFile.planned {m : FileManifest} (h : m.CoversFile) : m.Planned :=
  ⟨h.chunkSizePos, fun _ => h.count⟩

theorem chunkHeaderFor_fields {m : FileManifest} (h : m.Planned) {i : UInt64}
    (hi : i < m.chunkCount) : (chunkHeaderFor m i).sessionId = m.sessionId ∧
      (chunkHeaderFor m i).byteOffset.toNat = m.chunkOffset i ∧
      (chunkHeaderFor m i).payloadSize.toNat = m.chunkLength i :=
  ⟨rfl, h.offset_toNat hi, h.payloadSizeForChunk_toNat hi⟩

/-- The receiver's check admits the sender's headers and no others. -/
theorem validateChunkHeader_iff_eq {m : FileManifest} (h : m.Planned) (hd : ChunkHeader) :
    validateChunkHeader m hd = true ↔
      hd.chunkIndex < m.chunkCount ∧ hd = chunkHeaderFor m hd.chunkIndex := by
  rw [validateChunkHeader_iff h]
  refine and_congr_right fun hi => ?_
  obtain ⟨-, hoff, hsize⟩ := chunkHeaderFor_fields h hi
  constructor
  · rintro ⟨hb, hp, hs⟩
    have hb' : hd.byteOffset = (chunkHeaderFor m hd.chunkIndex).byteOffset :=
      UInt64.toNat_inj.mp (hb.trans hoff.symm)
    have hp' : hd.payloadSize = (chunkHeaderFor m hd.chunkIndex).payloadSize :=
      UInt32.toNat_inj.mp (hp.trans hsize.symm)
    obtain ⟨sessionId, chunkIndex, byteOffset, payloadSize⟩ := hd
    simp only at hb' hp' hs
    rw [hb', hp', hs]
    rfl
  · intro he
    rw [← he] at hoff hsize
    exact ⟨hoff, hsize, by rw [he]; rfl⟩

theorem range_of_valid {m : FileManifest} (h : m.Planned) {hd : ChunkHeader}
    (hv : validateChunkHeader m hd = true) : hd.chunkIndex < m.chunkCount ∧
      hd.range = Set.Ico (m.chunkOffset hd.chunkIndex)
        (m.chunkOffset hd.chunkIndex+m.chunkLength hd.chunkIndex) := by
  obtain ⟨hi, hb, hp, -⟩ := (validateChunkHeader_iff h hd).mp hv
  exact ⟨hi, by rw [ChunkHeader.range, hb, hp]⟩

theorem range_disjoint {m : FileManifest} (h : m.Planned) {hd hd' : ChunkHeader}
    (hv : validateChunkHeader m hd = true) (hv' : validateChunkHeader m hd' = true)
    (hlt : hd.chunkIndex < hd'.chunkIndex) : Disjoint hd.range hd'.range := by
  rw [(range_of_valid h hv).2, (range_of_valid h hv').2]
  have hle := m.chunk_end_le_chunkOffset hlt
  exact Set.disjoint_left.mpr fun k hk hk' => absurd (hk.2.trans_le (hle.trans hk'.1)) (lt_irrefl k)

/-- The headers the receiver admits are those the sender builds, and their ranges tile the file. -/
theorem chunkPlan_tiles (m : FileManifest) (h : m.CoversFile) :
    (∀ hd, validateChunkHeader m hd = true ↔
      hd.chunkIndex < m.chunkCount ∧ hd = chunkHeaderFor m hd.chunkIndex) ∧
    (∀ i < m.chunkCount, (chunkHeaderFor m i).sessionId = m.sessionId ∧
      (chunkHeaderFor m i).byteOffset.toNat = i.toNat*m.chunkSize.toNat ∧
      (chunkHeaderFor m i).payloadSize.toNat =
        min m.chunkSize.toNat (m.fileSize.toNat-i.toNat*m.chunkSize.toNat)) ∧
    (∀ hd hd', validateChunkHeader m hd = true → validateChunkHeader m hd' = true →
      hd.chunkIndex ≠ hd'.chunkIndex → Disjoint hd.range hd'.range) ∧
    (∀ hd, validateChunkHeader m hd = true → hd.range.Nonempty) ∧
    {k | ∃ hd, validateChunkHeader m hd = true ∧ k ∈ hd.range} = Set.Iio m.fileSize.toNat := by
  have hp := h.planned
  refine ⟨validateChunkHeader_iff_eq hp, fun i hi => chunkHeaderFor_fields hp hi,
    fun hd hd' hv hv' hne => ?_, fun hd hv => ?_, ?_⟩
  · rcases lt_or_gt_of_ne hne with hlt | hgt
    · exact range_disjoint hp hv hv' hlt
    · exact (range_disjoint hp hv' hv hgt).symm
  · obtain ⟨hi, hr⟩ := range_of_valid hp hv
    have hpos := hp.chunkLength_pos hi
    rw [hr]
    exact ⟨m.chunkOffset hd.chunkIndex, le_rfl, by omega⟩
  · ext k
    constructor
    · rintro ⟨hd, hv, hk⟩
      obtain ⟨hi, hr⟩ := range_of_valid hp hv
      rw [hr] at hk
      exact hk.2.trans_le (hp.chunk_end_le hi)
    · intro hk
      obtain ⟨i, hi, hlow, hhigh⟩ := hp.exists_chunk h.count hk
      have hv : validateChunkHeader m (chunkHeaderFor m i) = true :=
        (validateChunkHeader_iff_eq hp _).mpr ⟨hi, rfl⟩
      refine ⟨chunkHeaderFor m i, hv, ?_⟩
      rw [(range_of_valid hp hv).2]
      exact ⟨hlow, hhigh⟩

/-- Three bytes in chunks of two: the second chunk is short. -/
theorem chunkPlan_tiles_three :
    {k | ∃ hd, validateChunkHeader smallManifest hd = true ∧ k ∈ hd.range} = Set.Iio 3 :=
  (chunkPlan_tiles smallManifest ⟨by decide, by decide⟩).2.2.2.2

/-- The number of bytes in some chunks of the plan, in exact arithmetic. -/
def FileManifest.plannedBytes (m : FileManifest) (idxs : List UInt64) : ℕ :=
  (idxs.map m.chunkLength).sum

def FileManifest.allChunks (m : FileManifest) : List UInt64 :=
  (List.range m.chunkCount.toNat).map UInt64.ofNat

def FileManifest.otherChunks (m : FileManifest) (idxs : List UInt64) : List UInt64 :=
  m.allChunks.filter fun i => i ∉ idxs

namespace FileManifest

variable {m : FileManifest}

theorem mem_allChunks (i : UInt64) : i ∈ m.allChunks ↔ i < m.chunkCount := by
  simp only [allChunks, List.mem_map, List.mem_range]
  refine ⟨?_, fun h => ⟨i.toNat, UInt64.lt_iff_toNat_lt.mp h, UInt64.ofNat_toNat⟩⟩
  rintro ⟨k, hk, rfl⟩
  rw [UInt64.lt_iff_toNat_lt, UInt64.toNat_ofNat']
  exact (Nat.mod_le _ _).trans_lt hk

theorem nodup_allChunks : m.allChunks.Nodup := by
  refine List.Nodup.map_on (fun a ha b hb hab => ?_) List.nodup_range
  have hlt := m.chunkCount.toNat_lt
  rw [List.mem_range] at ha hb
  rw [← UInt64.toNat_inj, UInt64.toNat_ofNat_of_lt' (ha.trans hlt),
    UInt64.toNat_ofNat_of_lt' (hb.trans hlt)] at hab
  exact hab

/-- The first `n` chunks reach up to the end of the `n`-th or of the file. -/
theorem plannedBytes_range (m : FileManifest) (n : ℕ) (hn : n ≤ m.chunkCount.toNat) :
    m.plannedBytes ((List.range n).map UInt64.ofNat) =
      min (n*m.chunkSize.toNat) m.fileSize.toNat := by
  induction n with
  | zero => simp only [plannedBytes, List.range_zero, List.map_nil, List.sum_nil, Nat.zero_mul,
      Nat.zero_min]
  | succ n ih =>
    have hval : (UInt64.ofNat n).toNat = n :=
      UInt64.toNat_ofNat_of_lt' ((Nat.lt_of_succ_le hn).trans m.chunkCount.toNat_lt)
    rw [plannedBytes, List.range_succ, List.map_append, List.map_append, List.sum_append,
      ← plannedBytes, ih (Nat.le_of_succ_le hn)]
    simp only [List.map_cons, List.map_nil, List.sum_singleton, chunkLength, chunkOffset, hval,
      Nat.add_mul, Nat.one_mul]
    omega

theorem CoversFile.plannedBytes_allChunks (h : m.CoversFile) :
    m.plannedBytes m.allChunks = m.fileSize.toNat := by
  rw [allChunks, plannedBytes_range m _ le_rfl, Nat.min_eq_right]
  have hle := (ceilDiv_le_iff_le_mul h.planned.chunkSize_pos).mp h.count.symm.le
  rwa [Nat.mul_comm] at hle

/-- A list of distinct indexes of the plan and the rest of the plan make up the file. -/
theorem CoversFile.plannedBytes_add_otherChunks (h : m.CoversFile) (idxs : List UInt64)
    (hn : idxs.Nodup) (hi : ∀ i ∈ idxs, i < m.chunkCount) :
    m.plannedBytes idxs+m.plannedBytes (m.otherChunks idxs) = m.fileSize.toNat := by
  have hsplit : (idxs ++ m.otherChunks idxs).Nodup := by
    refine List.nodup_append.mpr ⟨hn, nodup_allChunks.filter _, fun a ha b hb hab => ?_⟩
    rw [otherChunks, List.mem_filter, decide_eq_true_eq] at hb
    exact hb.2 (hab ▸ ha)
  have hperm : (idxs ++ m.otherChunks idxs).Perm m.allChunks := by
    refine (List.perm_ext_iff_of_nodup hsplit nodup_allChunks).mpr fun i => ?_
    rw [List.mem_append, otherChunks, List.mem_filter, decide_eq_true_eq, mem_allChunks]
    have := hi i
    tauto
  rw [← h.plannedBytes_allChunks, plannedBytes, plannedBytes, plannedBytes,
    ← (hperm.map m.chunkLength).sum_eq, List.map_append, List.sum_append]

theorem length_le_chunkCount (idxs : List UInt64) (hn : idxs.Nodup)
    (hi : ∀ i ∈ idxs, i < m.chunkCount) : idxs.length ≤ m.chunkCount.toNat := by
  have hsub : idxs.Subperm m.allChunks :=
    hn.subperm fun i h => (mem_allChunks i).mpr (hi i h)
  have hle := hsub.length_le
  rwa [allChunks, List.length_map, List.length_range] at hle

end FileManifest

/-- The sum loop gives the exact sum as long as that fits in 64 bits. -/
theorem foldl_payloadSize_toNat {m : FileManifest} (h : m.Planned) (idxs : List UInt64)
    (hi : ∀ i ∈ idxs, i < m.chunkCount) (total : UInt64)
    (hw : total.toNat+m.plannedBytes idxs < 2^64) :
    (idxs.foldl (fun total i => total + (payloadSizeForChunk m i).toUInt64) total).toNat =
      total.toNat+m.plannedBytes idxs := by
  induction idxs generalizing total with
  | nil => rfl
  | cons i is ih =>
    have hcons : m.plannedBytes (i :: is) = m.chunkLength i+m.plannedBytes is := by
      rw [FileManifest.plannedBytes, List.map_cons, List.sum_cons, ← FileManifest.plannedBytes]
    have hadd : (total + (payloadSizeForChunk m i).toUInt64).toNat =
        total.toNat+m.chunkLength i := by
      rw [UInt64.toNat_add, UInt32.toNat_toUInt64,
        h.payloadSizeForChunk_toNat (hi i List.mem_cons_self), Nat.mod_eq_of_lt (by omega)]
    rw [List.foldl_cons, ih (fun j hj => hi j (List.mem_cons_of_mem i hj)) _ (by rw [hadd]; omega),
      hadd, hcons, Nat.add_assoc]

theorem bytesTransferred_afterChunks (t : ProgressTracker) (m : FileManifest)
    (idxs : List UInt64) : (t.afterChunks m idxs).bytesTransferred =
      idxs.foldl (fun total i => total + (payloadSizeForChunk m i).toUInt64) t.bytesTransferred := by
  induction idxs generalizing t with
  | nil => rfl
  | cons i is ih => exact ih _

theorem chunksCompleted_afterChunks (t : ProgressTracker) (m : FileManifest)
    (idxs : List UInt64) : (t.afterChunks m idxs).chunksCompleted =
      t.chunksCompleted + UInt64.ofNat idxs.length := by
  induction idxs generalizing t with
  | nil => exact (UInt64.add_zero _).symm
  | cons i is ih =>
    have hstep : (t.afterChunks m (i :: is)).chunksCompleted =
        t.chunksCompleted + 1 + UInt64.ofNat is.length :=
      ih (t.addProgress (payloadSizeForChunk m i).toUInt64 1)
    rw [hstep, List.length_cons, UInt64.ofNat_add, UInt64.add_assoc, UInt64.add_comm 1]
    rfl

/-- A sender's loop that ends well has counted every chunk of its list. -/
theorem sendFileChunks_progress (content : Bytes) (m : FileManifest) (idxs : List UInt64)
    (t : ProgressTracker) (s : TcpSocket) (h : (sendFileChunks content m idxs t s).1 = none) :
    (sendFileChunks content m idxs t s).2.1 = t.afterChunks m idxs := by
  induction idxs generalizing t s with
  | nil => rfl
  | cons i is ih =>
    rw [sendFileChunks_cons] at h ⊢
    simp only at h ⊢
    split at h
    · cases h
    · rename_i hseek
      rw [if_neg hseek]
      split at h
      · cases h
      · rename_i hread
        rw [ne_eq, not_not] at hread
        rw [if_neg (by rw [ne_eq, not_not]; exact hread)]
        have hbytes : UInt64.ofNat (slice content (i*m.chunkSize.toUInt64).toNat
            (payloadSizeForChunk m i).toNat).length = (payloadSizeForChunk m i).toUInt64 := by
          rw [hread, ← UInt32.toNat_toUInt64, UInt64.ofNat_toNat]
        rw [hbytes] at h ⊢
        generalize sendChunkHeader s (chunkHeaderFor m i) = header at h ⊢
        obtain ⟨_ | _, s1⟩ := header
        · cases h
        · simp only at h ⊢
          generalize s1.sendAll _ = payload at h ⊢
          obtain ⟨_ | _, s2⟩ := payload
          · cases h
          · exact ih _ s2 h

/-- A receiver's loop that ends well has counted every chunk of its list, whatever the files did. -/
theorem receiveLoop_progress {σ : Type} (e : Handler FileOp Answer σ) {m : FileManifest}
    (hm : m.Planned) (out ckpt : Bytes) (idxs : List UInt64) (cp : TransferCheckpoint)
    (t : ProgressTracker) (s : TcpSocket) (ho : s.isOpen = true) (w : σ)
    (h : (Prog.run e (receiveLoop out ckpt m idxs cp t s) w).1.1 = none) :
    (Prog.run e (receiveLoop out ckpt m idxs cp t s) w).1.2.1 = t.afterChunks m idxs := by
  induction idxs generalizing cp t s w with
  | nil => rfl
  | cons i is ih =>
    rcases receiveLoop_turn hm out ckpt i is cp t s ho with
      ⟨exit, n, k, hloop, -⟩ | ⟨offset, payload, n, k, -, -, -, -, hloop⟩
    · rw [hloop] at h
      cases h
    · rw [hloop] at h ⊢
      simp only [Prog.run_bind] at h ⊢
      generalize Prog.run e (call (.write out payload)) _ = written at h ⊢
      by_cases hwritten : written.1 = true
      · rw [if_pos hwritten, Prog.run_bind] at h ⊢
        generalize Prog.run e (saveCheckpoint ckpt (cp.withChunks [i])) _ = saved at h ⊢
        obtain ⟨_ | _, w2⟩ := saved
        · cases h
        · exact ih _ _ _ (by rwa [TcpSocket.skip_isOpen]) w2 h
      · rw [if_neg hwritten] at h
        cases h

theorem receiveFileChunks_progress {σ : Type} (e : Handler FileOp Answer σ) {m : FileManifest}
    (hm : m.Planned) (out ckpt : Bytes) (idxs : List UInt64) (cp : TransferCheckpoint)
    (t : ProgressTracker) (s : TcpSocket) (ho : s.isOpen = true) (fresh : Bool) (w : σ)
    (h : (Prog.run e (receiveFileChunks s out ckpt m idxs cp t fresh) w).1.1 = none) :
    (Prog.run e (receiveFileChunks s out ckpt m idxs cp t fresh) w).1.2.1 =
      t.afterChunks m idxs := by
  rw [receiveFileChunks, Prog.run_bind] at h ⊢
  generalize Prog.run e (prepareOutputFile out fresh) w = prepared at h ⊢
  obtain ⟨_ | _, w1⟩ := prepared
  · cases h
  · simp only [↓reduceIte, Prog.run_bind] at h ⊢
    generalize Prog.run e (call (.openInOut out)) w1 = opened at h ⊢
    by_cases hopened : opened.1 = true
    · rw [if_pos hopened] at h ⊢
      simp only [Prog.run_bind, Prog.run_pure] at h ⊢
      exact receiveLoop_progress e hm out ckpt idxs cp t s ho _ h
    · rw [if_neg hopened] at h
      cases h

def ProgressTracker.start (totalBytes totalChunks : UInt64) : ProgressTracker :=
  { totalBytes, totalChunks }

/-- For every request that passes validation the accounting is exact: the list fits in the plan, no
product, difference or partial sum wraps, the list and the rest of the plan make up the file, and
both loops end with these counts. -/
theorem accounting_exact (m : FileManifest) (h : m.CoversFile) (r : ContinueRequest)
    (hv : validateContinueRequest m r = true) :
    r.missingChunkIndexes.length ≤ m.chunkCount.toNat ∧
    (∀ i < m.chunkCount, i.toNat*m.chunkSize.toNat < 2^64 ∧
      i.toNat*m.chunkSize.toNat ≤ m.fileSize.toNat ∧ (payloadSizeForChunk m i).toNat =
        min m.chunkSize.toNat (m.fileSize.toNat-i.toNat*m.chunkSize.toNat)) ∧
    (∀ done, done <+: r.missingChunkIndexes →
      (bytesForChunks m done).toNat = m.plannedBytes done) ∧
    (bytesForChunks m r.missingChunkIndexes).toNat+
      m.plannedBytes (m.otherChunks r.missingChunkIndexes) = m.fileSize.toNat ∧
    (∀ (totalBytes totalChunks : UInt64) (content : Bytes) (s : TcpSocket) (p : ProgressTracker),
      (sendFileChunks content m r.missingChunkIndexes (.start totalBytes totalChunks) s).1 = none →
      (sendFileChunks content m r.missingChunkIndexes (.start totalBytes totalChunks) s).2.1 = p →
      p.bytesTransferred = bytesForChunks m r.missingChunkIndexes ∧
        p.chunksCompleted.toNat = r.missingChunkIndexes.length) ∧
    ∀ (totalBytes totalChunks : UInt64) (env : Env) (w : World) (out ckpt : Bytes)
      (cp : TransferCheckpoint) (s : TcpSocket) (fresh : Bool) (p : ProgressTracker) s' w',
      s.isOpen = true →
      Prog.run env.exec (receiveFileChunks s out ckpt m r.missingChunkIndexes cp
        (.start totalBytes totalChunks) fresh) w = ((none, p, s'), w') →
      p.bytesTransferred = bytesForChunks m r.missingChunkIndexes ∧
        p.chunksCompleted.toNat = r.missingChunkIndexes.length := by
  have hp := h.planned
  obtain ⟨hi, hasc⟩ : (∀ i ∈ r.missingChunkIndexes, i < m.chunkCount) ∧
      r.missingChunkIndexes.Pairwise (· < ·) := by
    unfold validateContinueRequest at hv
    split at hv
    · cases hv
    · obtain ⟨hi, -, hasc⟩ := (validateIndexes_iff _ _ _).mp hv
      exact ⟨hi, hasc⟩
  generalize r.missingChunkIndexes = idxs at hi hasc ⊢
  have hn : idxs.Nodup := hasc.imp ne_of_lt
  have hlen := FileManifest.length_le_chunkCount idxs hn hi
  have hsplit := h.plannedBytes_add_otherChunks idxs hn hi
  have hfs := m.fileSize.toNat_lt
  -- a front of the list announces no more bytes than the file has, so no sum wraps
  have hsum (done : List UInt64) (hd : done <+: idxs) :
      (bytesForChunks m done).toNat = m.plannedBytes done := by
    have hle : m.plannedBytes done ≤ m.plannedBytes idxs := by
      obtain ⟨later, hlater⟩ := hd
      rw [← hlater, FileManifest.plannedBytes, FileManifest.plannedBytes, List.map_append,
        List.sum_append]
      exact Nat.le_add_right _ _
    have hz := foldl_payloadSize_toNat hp done (fun i hid => hi i (hd.subset hid)) 0 (by
      rw [UInt64.toNat_zero]
      omega)
    rwa [UInt64.toNat_zero, Nat.zero_add] at hz
  have hcounters (totalBytes totalChunks : UInt64) (p : ProgressTracker)
      (he : (ProgressTracker.start totalBytes totalChunks).afterChunks m idxs = p) :
      p.bytesTransferred = bytesForChunks m idxs ∧ p.chunksCompleted.toNat = idxs.length := by
    subst he
    rw [bytesTransferred_afterChunks, chunksCompleted_afterChunks]
    refine ⟨rfl, ?_⟩
    rw [ProgressTracker.start, UInt64.zero_add,
      UInt64.toNat_ofNat_of_lt' (hlen.trans_lt m.chunkCount.toNat_lt)]
  refine ⟨hlen, fun i hil => ?_, hsum, by rw [hsum idxs List.prefix_rfl]; exact hsplit,
    fun tb tc content s p hnone hpr => ?_, fun tb tc env w out ckpt cp s fresh p s' w' ho hrun => ?_⟩
  · have ho : i.toNat*m.chunkSize.toNat < m.fileSize.toNat := hp.chunkOffset_lt hil
    exact ⟨ho.trans hfs, ho.le, hp.payloadSizeForChunk_toNat hil⟩
  · exact hcounters tb tc p ((sendFileChunks_progress content m idxs _ s hnone).symm.trans hpr)
  · have hprog := receiveFileChunks_progress env.exec hp out ckpt idxs cp
      (.start tb tc) s ho fresh w (by rw [hrun])
    rw [hrun] at hprog
    exact hcounters tb tc p hprog.symm

/-- A request for the short last chunk of three bytes in chunks of two. -/
theorem accounting_exact_last :
    (bytesForChunks smallManifest [1]).toNat+
      smallManifest.plannedBytes (smallManifest.otherChunks [1]) = 3 :=
  (accounting_exact smallManifest ⟨by decide, by decide⟩
    { totalChunks := 2, missingChunkIndexes := [1] } (by decide)).2.2.2.1

end PacketBridge
