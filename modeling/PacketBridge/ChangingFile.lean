import PacketBridge.FaultyRuns

/-! The sender over a file that others may write to while it runs: the size is taken, the hash is
computed and each chunk is read at its own moment. -/
namespace PacketBridge
open Foundations

attribute [local irreducible] sha256File

/-- What the sender finds at the path of the file, call by call. -/
structure FileReads where
  /-- The answer of `file_size`; `none` when it throws. -/
  size : Option ℕ
  size_lt : ∀ n ∈ size, n < 2^63
  /-- The bytes that `sha256_file` streams; `none` when it throws. -/
  hashed : Option Bytes
  /-- Whether the file opens for the chunks. -/
  opens : Bool
  /-- What the `k`-th read gets, of a number of bytes at an offset. -/
  read : ℕ → ℕ → ℕ → Bytes
  read_le : ∀ k offset n, (read k offset n).length ≤ n

/-- Where `main` returns; behind the connection it does so as over a file at rest, unless the file
does not open. -/
inductive FileSenderExit where
  | fileNotRead
  | inputNotOpened
  | session (exit : SenderExit)
  deriving DecidableEq

def FileSenderExit.code : FileSenderExit → ℕ
  | session exit => exit.code
  | _ => 1

/-- `main` once the continuation request is accepted; the bytes `hashed` were hashed before. -/
def senderTransferFrom (file : FileReads) (hashed : Bytes) (manifest : FileManifest)
    (request : ContinueRequest) (socket : TcpSocket) : FileSenderExit × TcpSocket :=
  if file.opens = false then (.inputNotOpened, socket)
  else
    let transfer := senderTransferOf file.read hashed manifest request socket
    (.session transfer.1, transfer.2)

/-- `main` for the file at `filePath`; the connection is opened after the file has been hashed. -/
def senderFrom (file : FileReads) (filePath : Bytes) (socket : TcpSocket) :
    FileSenderExit × TcpSocket :=
  match file.size, file.hashed with
  | some size, some hashed =>
    let manifest := manifestFor filePath (UInt64.ofNat size)
    senderSession .session (senderTransferFrom file hashed manifest) manifest socket
  | _, _ => (.fileNotRead, socket)

def FileReads.atRest (content : Bytes) (hc : Sendable content) : FileReads where
  size := some content.length
  size_lt := by
    intro n hn
    rw [← Option.some.inj hn]
    exact hc
  hashed := some content
  opens := true
  read _ offset n := slice content offset n
  read_le := by
    intro _ offset n
    exact List.length_take_le _ _

/-- Over a file at rest this is the sender of a file that does not change. -/
theorem senderFrom_atRest (content : Bytes) (hc : Sendable content) (filePath : Bytes)
    (s : TcpSocket) : senderFrom (.atRest content hc) filePath s =
      (.session (sender filePath content s).1, (sender filePath content s).2) := by
  have hmanifest : manifestFor filePath (UInt64.ofNat content.length) =
      senderManifest filePath content := rfl
  have htransfer (request : ContinueRequest) (s : TcpSocket) :
      senderTransferFrom (.atRest content hc) content (senderManifest filePath content) request s =
        (.session (senderTransfer content (senderManifest filePath content) request s).1,
          (senderTransfer content (senderManifest filePath content) request s).2) := rfl
  change senderSession _ _ (manifestFor filePath (UInt64.ofNat content.length)) s = _
  rw [hmanifest, sender, senderSession, senderSession]
  rcases sendFileManifest s (senderManifest filePath content) with ⟨_ | _, s1⟩
  · rfl
  dsimp only
  rcases receiveContinueRequest s1 with ⟨_ | request, s2⟩
  · rfl
  dsimp only
  rw [htransfer]
  cases validateContinueRequest (senderManifest filePath content) request <;> rfl

/-- The chunks read whole before the first that is not, from the `k`-th read on. -/
def FileReads.readable (file : FileReads) (m : FileManifest) : ℕ → List UInt64 → List UInt64
  | _, [] => []
  | k, i :: is =>
    if (file.read k (m.chunkOffset i) (m.chunkLength i)).length = m.chunkLength i then
      i :: file.readable m (k+1) is
    else []

theorem FileReads.readable_front (file : FileReads) (m : FileManifest) (k : ℕ)
    (idxs : List UInt64) : file.readable m k idxs <+: idxs := by
  induction idxs generalizing k with
  | nil => exact List.prefix_refl []
  | cons i is ih =>
    rw [FileReads.readable]
    split
    · exact (List.prefix_cons_inj i).mpr (ih (k+1))
    · exact List.nil_prefix

theorem FileReads.length_read_of_readable (file : FileReads) {m : FileManifest} {k j : ℕ}
    {idxs : List UInt64} {i : UInt64} (h : (file.readable m k idxs)[j]? = some i) :
    (file.read (k+j) (m.chunkOffset i) (m.chunkLength i)).length = m.chunkLength i := by
  induction idxs generalizing k j with
  | nil => cases h
  | cons i' is ih =>
    rw [FileReads.readable] at h
    split at h
    · cases j with
      | zero =>
        obtain rfl := Option.some.inj h
        assumption
      | succ j =>
        rw [Nat.add_comm j, ← Nat.add_assoc]
        exact ih h
    · cases h

/-- `content` holds what the reads of these chunks got. -/
def FileReads.Shows (file : FileReads) (m : FileManifest) (content : Bytes) (k : ℕ)
    (idxs : List UInt64) : Prop :=
  ∀ j i, (file.readable m k idxs)[j]? = some i →
    file.read (k+j) (m.chunkOffset i) (m.chunkLength i) = fileChunk m content i

theorem FileReads.Shows.next {file : FileReads} {m : FileManifest} {content : Bytes} {k : ℕ}
    {i : UInt64} {is : List UInt64} (h : file.Shows m content k (i :: is))
    (hread : (file.read k (m.chunkOffset i) (m.chunkLength i)).length = m.chunkLength i) :
    file.read k (m.chunkOffset i) (m.chunkLength i) = fileChunk m content i ∧
      file.Shows m content (k+1) is := by
  have hreadable : file.readable m k (i :: is) = i :: file.readable m (k+1) is := by
    rw [FileReads.readable, if_pos hread]
  unfold FileReads.Shows at h
  rw [hreadable] at h
  refine ⟨h 0 i rfl, ?_⟩
  intro j i' hj
  rw [Nat.add_right_comm]
  exact h (j+1) i' hj

/-- Whatever the reads of different chunks get, some file of the announced size holds it all. -/
theorem FileReads.exists_content (file : FileReads) {m : FileManifest} (hm : m.Planned)
    (idxs : List UInt64) (hi : ∀ i ∈ idxs, i < m.chunkCount) (hnd : idxs.Nodup) (k : ℕ) :
    ∃ content, content.length = m.fileSize.toNat ∧ file.Shows m content k idxs := by
  suffices hholds : ∃ content, content.length = m.fileSize.toNat ∧
      ∀ j i, (file.readable m k idxs)[j]? = some i → HoldsAt content (m.chunkOffset i)
        (file.read (k+j) (m.chunkOffset i) (m.chunkLength i)) by
    obtain ⟨content, hlen, hholds⟩ := hholds
    refine ⟨content, hlen, ?_⟩
    intro j i hj
    have hslice := slice_eq_of_holdsAt _ _ _ (hholds j i hj)
    rw [file.length_read_of_readable hj] at hslice
    exact hslice.symm
  induction idxs generalizing k with
  | nil =>
    refine ⟨List.replicate m.fileSize.toNat 0, List.length_replicate, ?_⟩
    intro j i hj
    cases hj
  | cons i is ih =>
    rw [List.nodup_cons] at hnd
    obtain ⟨content, hlen, hholds⟩ := ih (List.forall_mem_cons.mp hi).2 hnd.2 (k+1)
    have hend := hm.chunk_end_le (hi i List.mem_cons_self)
    have hpos := hm.chunkLength_pos (hi i List.mem_cons_self)
    rw [FileReads.readable]
    split
    · rename_i hread
      have hgot := List.ne_nil_of_length_pos (hread ▸ hpos)
      refine ⟨writeAt content (m.chunkOffset i) (file.read k (m.chunkOffset i) (m.chunkLength i)),
        ?_, ?_⟩
      · rw [length_writeAt _ _ _ hgot]
        omega
      · intro j i' hj
        cases j with
        | zero =>
          obtain rfl := Option.some.inj hj
          exact holdsAt_writeAt _ _ _
        | succ j =>
          -- the write of this chunk is beside the chunks behind it
          rw [List.getElem?_cons_succ] at hj
          have hmem : i' ∈ is := (file.readable_front m (k+1) is).subset (List.mem_of_getElem? hj)
          have hne : i ≠ i' := fun h => hnd.1 (h ▸ hmem)
          have hlen' := file.length_read_of_readable hj
          have hbehind := hholds j i' hj
          rw [Nat.add_right_comm] at hlen' hbehind
          rw [← Nat.add_assoc]
          apply holdsAt_writeAt_beside _ _ _ _ _ hbehind
          rw [hread, hlen']
          rcases lt_or_gt_of_ne hne with hlt | hgt
          · right
            exact m.chunk_end_le_chunkOffset hlt
          · left
            exact m.chunk_end_le_chunkOffset hgt
    · refine ⟨content, hlen, ?_⟩
      intro j i' hj
      cases hj

/-- The loop does as over a file at rest that holds what is read, up to the first short read. -/
theorem sendFileChunksFrom_eq {file : FileReads} {m : FileManifest} (hm : m.Planned)
    (hsize : m.fileSize.toNat < 2^63) {content : Bytes} (hlen : content.length = m.fileSize.toNat)
    (idxs : List UInt64) (hi : ∀ i ∈ idxs, i < m.chunkCount) (k : ℕ)
    (hshow : file.Shows m content k idxs) (t : ProgressTracker) (s : TcpSocket) :
    sendFileChunksFrom file.read m k idxs t s =
      ((sendFileChunks content m (file.readable m k idxs) t s).1.orElse
          fun _ => if file.readable m k idxs = idxs then none else some .readFailed,
        (sendFileChunks content m (file.readable m k idxs) t s).2) := by
  induction idxs generalizing k t s with
  | nil => rfl
  | cons i is ih =>
    have hil := hi i List.mem_cons_self
    have hoff := hm.offset_toNat hil
    have hpay := hm.payloadSizeForChunk_toNat hil
    have hend := hm.chunk_end_le hil
    rw [sendFileChunksFrom]
    simp only [hoff, hpay, show ¬ m.chunkOffset i ≥ 2^63 by omega, ↓reduceIte]
    by_cases hread : (file.read k (m.chunkOffset i) (m.chunkLength i)).length = m.chunkLength i
    · obtain ⟨hgot, hnext⟩ := hshow.next hread
      have hchunk : slice content (m.chunkOffset i) (m.chunkLength i) = fileChunk m content i := rfl
      have hchunkLen : (fileChunk m content i).length = m.chunkLength i := by rw [← hgot, hread]
      have hreadable : file.readable m k (i :: is) = i :: file.readable m (k+1) is := by
        rw [FileReads.readable, if_pos hread]
      rw [hreadable, sendFileChunks_cons]
      simp only [hoff, hpay, show ¬ m.chunkOffset i ≥ 2^63 by omega, hgot, hchunk, hchunkLen, ne_eq,
        not_true_eq_false, ↓reduceIte, List.cons.injEq, true_and]
      rcases sendChunkHeader s (chunkHeaderFor m i) with ⟨_ | _, s1⟩
      · rfl
      dsimp only
      rcases s1.sendAll (fileChunk m content i) with ⟨_ | _, s2⟩
      · rfl
      exact ih (List.forall_mem_cons.mp hi).2 (k+1) hnext _ s2
    · have hreadable : file.readable m k (i :: is) = [] := by
        rw [FileReads.readable, if_neg hread]
      rw [hreadable, if_pos hread]
      rfl

theorem eq_complete_of_code {exit : SenderExit} (h : exit.code = 0) : exit = .complete := by
  cases exit <;> first | rfl | cases h

theorem chunkStream_front (m : FileManifest) (content : Bytes) {idxs idxs' : List UInt64}
    (h : idxs <+: idxs') : chunkStream m content idxs <+: chunkStream m content idxs' := by
  obtain ⟨t, rfl⟩ := h
  rw [chunkStream, chunkStream, List.flatMap_append]
  exact List.prefix_append _ _

/-- `main` behind the request: it sends a part of the transfer that is asked for, and all of it when it
reports success. Over a connection that takes everything nothing but a short read stops it. -/
theorem senderTransferFrom_sends {file : FileReads} {m : FileManifest} (hm : m.Planned)
    (hsize : m.fileSize.toNat < 2^63) {content : Bytes} (hlen : content.length = m.fileSize.toNat)
    (hashed : Bytes) (request : ContinueRequest)
    (hi : ∀ i ∈ request.missingChunkIndexes, i < m.chunkCount)
    (hshow : file.Shows m content 0 request.missingChunkIndexes) (s : TcpSocket)
    (ho : s.isOpen = true) :
    let whole := chunkStream m content request.missingChunkIndexes ++
      serializeHashPacket (contentHash m hashed)
    let complete := file.opens = true ∧
      file.readable m 0 request.missingChunkIndexes = request.missingChunkIndexes
    let run := senderTransferFrom file hashed m request s
    ∃ part, run.2.sent = s.sent ++ part ∧ part <+: whole ∧
      (run.1.code = 0 → complete ∧ part = whole) ∧
      (s.room = none → complete → run.1.code = 0) := by
  intro whole complete run
  cases hopens : file.opens with
  | false =>
    have hrun : run = (.inputNotOpened, s) := if_pos hopens
    refine ⟨[], ?_, List.nil_prefix, ?_, ?_⟩
    · rw [hrun, List.append_nil]
    · intro hcode
      rw [hrun] at hcode
      cases hcode
    · rintro - ⟨ho', -⟩
      rw [hopens] at ho'
      cases ho'
  | true =>
    have hrun : run = (.session (senderTransferOf file.read hashed m request s).1,
        (senderTransferOf file.read hashed m request s).2) := if_neg (by rw [hopens]; decide)
    generalize ht : ({
      totalBytes := bytesForChunks m request.missingChunkIndexes
      totalChunks := UInt64.ofNat request.missingChunkIndexes.length } : ProgressTracker) = t
    have hloop := sendFileChunksFrom_eq hm hsize hlen request.missingChunkIndexes hi 0 hshow t s
    have hfront := file.readable_front m 0 request.missingChunkIndexes
    have hc : Sendable content := by
      unfold Sendable
      omega
    have hsends := sendFileChunks_sends hm hc hlen.symm
      (file.readable m 0 request.missingChunkIndexes) (fun i h => hi i (hfront.subset h)) t s ho
    have hexit := sendFileChunks_ne_complete content m
      (file.readable m 0 request.missingChunkIndexes) t s
    generalize sendFileChunks content m (file.readable m 0 request.missingChunkIndexes) t s = r
      at hsends hexit hloop
    obtain ⟨failed, t1, s1⟩ := r
    obtain ⟨part, hpart, hpre, hwhole⟩ := hsends.sent
    have hpre' : part <+: whole :=
      (hpre.trans (chunkStream_front m content hfront)).trans (List.prefix_append _ _)
    cases failed with
    | some exit =>
      have htransfer : senderTransferOf file.read hashed m request s = (exit, s1) := by
        rw [senderTransferOf_eq, ht, hloop, Option.orElse_some]
      rw [hrun, htransfer]
      refine ⟨part, hpart, hpre', ?_, ?_⟩
      · intro hcode
        exact absurd (eq_complete_of_code hcode) (hexit exit rfl)
      · intro hroom
        cases (hsends.room hroom).1
    | none =>
      rw [Option.orElse_none] at hloop
      by_cases hall : file.readable m 0 request.missingChunkIndexes = request.missingChunkIndexes
      · rw [if_pos hall] at hloop
        obtain rfl := hwhole rfl
        have hhash := s1.sendAll_sends (serializeHashPacket (contentHash m hashed))
          (hsends.isOpen.trans ho)
        have htransfer : senderTransferOf file.read hashed m request s =
            (if (sendHashPacket s1 (contentHash m hashed)).1 then .complete else .hashNotSent,
              (sendHashPacket s1 (contentHash m hashed)).2) := by
          rw [senderTransferOf_eq, ht, hloop]
        rw [← sendHashFrame] at hhash
        rw [hrun, htransfer]
        generalize sendHashPacket s1 (contentHash m hashed) = r at hhash
        obtain ⟨ok, s2⟩ := r
        have hboth := hsends.append hhash
        rw [hall] at hboth
        obtain ⟨all, hsent, hpre, hwhole⟩ := hboth.sent
        refine ⟨all, hsent, hpre, ?_, ?_⟩
        · intro hcode
          cases ok with
          | false => cases hcode
          | true => exact ⟨⟨hopens, hall⟩, hwhole rfl⟩
        · intro hroom _
          obtain rfl : ok = true := (hboth.room hroom).1
          rfl
      · rw [if_neg hall] at hloop
        have htransfer : senderTransferOf file.read hashed m request s = (.readFailed, s1) := by
          rw [senderTransferOf_eq, ht, hloop]
        rw [hrun, htransfer]
        refine ⟨part, hpart, hpre', ?_, ?_⟩
        · intro hcode
          cases hcode
        · rintro - ⟨-, hall'⟩
          exact absurd hall' hall

theorem manifestFor_encodable (filePath : Bytes) (size : UInt64)
    (hn : (manifestFor filePath size).filename.length ≤ kMaxFilenameLength) :
    (manifestFor filePath size).Encodable where
  version := rfl
  nameNonempty := List.length_pos_iff.mpr (sanitizeFilename_ne_nil _)
  nameShort := hn
  chunkSizePos := by
    change UInt32.ofNat kDefaultChunkSize ≠ 0
    decide
  chunkCountExpected := by
    simp only [manifestFor, chunkCount, expectedChunks]
    rw [if_neg (by decide)]

/-- What follows the manifest: an answer to the request at the front of the incoming stream, if there
is one that the manifest allows. -/
theorem senderFrom_eq {file : FileReads} {filePath : Bytes} {size : ℕ} {hashed : Bytes}
    (hs : file.size = some size) (hh : file.hashed = some hashed)
    (hn : (manifestFor filePath (UInt64.ofNat size)).filename.length ≤ kMaxFilenameLength)
    (a : TcpSocket) (ho : a.isOpen = true) :
    let m := manifestFor filePath (UInt64.ofNat size)
    ∃ ok s k, TcpSocket.Sends a (serializeFileManifest m) ok s ∧ senderFrom file filePath a =
      if ok then
        ((parseContinueRequest a.incoming).1.filter (validateContinueRequest m)).elim
          (.session .requestNotReceived, s.skip (parseContinueRequest a.incoming).2 k)
          fun request => senderTransferFrom file hashed m request
            (s.skip (parseContinueRequest a.incoming).2 k)
      else (.session .manifestNotSent, s) := by
  intro m
  have henc : m.Encodable := manifestFor_encodable filePath _ hn
  have hsend := a.sendAll_sends (serializeFileManifest m) ho
  have hmanifest := sendMessage_eq a (.manifest m) henc
  change sendFileManifest a m = a.sendAll (serializeFileManifest m) at hmanifest
  simp only [senderFrom, hs, hh]
  change ∃ ok s k, _ ∧ senderSession .session (senderTransferFrom file hashed m) m a = _
  rw [senderSession]
  rw [hmanifest]
  generalize a.sendAll (serializeFileManifest m) = sent at hsend
  obtain ⟨ok, s⟩ := sent
  cases ok with
  | false => exact ⟨false, s, 0, hsend, rfl⟩
  | true =>
    obtain ⟨k, hk⟩ := receiveContinueRequest_reads s (hsend.isOpen.trans ho)
    have hin : s.incoming = a.incoming := hsend.incoming
    rw [hin] at hk
    refine ⟨true, s, k, hsend, ?_⟩
    simp only [hk, ↓reduceIte]
    cases (parseContinueRequest a.incoming).1 with
    | none => rfl
    | some request =>
      rw [Option.filter_some]
      cases hvalid : validateContinueRequest m request <;>
        simp only [hvalid, ↓reduceIte, Bool.false_eq_true, Option.elim_none, Option.elim_some]

/-- A front of the stream is a request that the manifest allows. -/
def Asks (m : FileManifest) (bs : Bytes) (request : ContinueRequest) : Prop :=
  (∃ front, front <+: bs ∧ deserializeContinueRequest front = .ok request) ∧
    validateContinueRequest m request = true

theorem asks_iff (m : FileManifest) (bs : Bytes) (request : ContinueRequest) :
    Asks m bs request ↔
      (parseContinueRequest bs).1.filter (validateContinueRequest m) = some request := by
  rw [Option.filter_eq_some_iff, continueRequest_codec.parse_eq_some_iff]
  simp only [toOption_eq_some]
  exact Iff.rfl

section Answers

variable {file : FileReads} {filePath : Bytes} {size : ℕ} {hashed : Bytes}

theorem fileSize_manifestFor (hs : file.size = some size) :
    (manifestFor filePath (UInt64.ofNat size)).fileSize.toNat = size :=
  UInt64.toNat_ofNat_of_lt' ((file.size_lt size hs).trans (by decide))

/-- All that the sender has to say to a request. -/
def answerFrom (m : FileManifest) (content hashed : Bytes) (idxs : List UInt64) : Bytes :=
  serializeFileManifest m ++
    (chunkStream m content idxs ++ serializeHashPacket (contentHash m hashed))

theorem senderFrom_refuses (hs : file.size = some size) (hh : file.hashed = some hashed)
    (hn : (manifestFor filePath (UInt64.ofNat size)).filename.length ≤ kMaxFilenameLength)
    (a : TcpSocket) (ho : a.isOpen = true)
    (hnone : ∀ request, ¬ Asks (manifestFor filePath (UInt64.ofNat size)) a.incoming request) :
    (senderFrom file filePath a).1.code = 1 ∧
      ∃ part, (senderFrom file filePath a).2.sent = a.sent ++ part ∧
        part <+: serializeFileManifest (manifestFor filePath (UInt64.ofNat size)) := by
  obtain ⟨ok, s, k, hsend, hrun⟩ := senderFrom_eq hs hh hn a ho
  obtain ⟨part, hpart, hpre, -⟩ := hsend.sent
  have hparsed : (parseContinueRequest a.incoming).1.filter
      (validateContinueRequest (manifestFor filePath (UInt64.ofNat size))) = none := by
    rw [Option.eq_none_iff_forall_ne_some]
    intro request hsome
    exact hnone request ((asks_iff _ _ _).mpr hsome)
  rw [hrun, hparsed, Option.elim_none]
  cases ok with
  | false => exact ⟨rfl, part, hpart, hpre⟩
  | true => exact ⟨rfl, part, hpart, hpre⟩

theorem senderFrom_answers (hs : file.size = some size) (hh : file.hashed = some hashed)
    (hn : (manifestFor filePath (UInt64.ofNat size)).filename.length ≤ kMaxFilenameLength)
    (a : TcpSocket) (ho : a.isOpen = true) (request : ContinueRequest)
    (hask : Asks (manifestFor filePath (UInt64.ofNat size)) a.incoming request) :
    let m := manifestFor filePath (UInt64.ofNat size)
    let idxs := request.missingChunkIndexes
    let complete := file.opens = true ∧ file.readable m 0 idxs = idxs
    let run := senderFrom file filePath a
    idxs.Pairwise (· < ·) ∧ (∀ i ∈ idxs, i < m.chunkCount) ∧
      ∃ content part, content.length = size ∧ file.Shows m content 0 idxs ∧
        run.2.sent = a.sent ++ part ∧ part <+: answerFrom m content hashed idxs ∧
        (run.1.code = 0 → complete ∧ part = answerFrom m content hashed idxs) ∧
        (a.room = none → complete → run.1.code = 0) := by
  intro m idxs complete run
  have henc : m.Encodable := manifestFor_encodable filePath _ hn
  have hsize : m.fileSize.toNat = size := fileSize_manifestFor hs
  have hlt := file.size_lt size hs
  have hi := range_of_validateContinueRequest hask.2
  have hasc : idxs.Pairwise (· < ·) := by
    have hvalid := hask.2
    rw [validateContinueRequest] at hvalid
    split at hvalid
    · cases hvalid
    · exact ((validateIndexes_iff _ _ _).mp hvalid).2.2
  refine ⟨hasc, hi, ?_⟩
  obtain ⟨content, hlen, hshow⟩ := file.exists_content henc.planned idxs hi
    (hasc.imp fun h => UInt64.ne_of_lt h) 0
  obtain ⟨ok, s, k, hsend, hrun⟩ := senderFrom_eq hs hh hn a ho
  obtain ⟨front, hfront, hpre, hwhole⟩ := hsend.sent
  rw [(asks_iff _ _ _).mp hask, Option.elim_some] at hrun
  cases ok with
  | false =>
    have hrun' : run = (.session .manifestNotSent, s) := hrun
    rw [hrun']
    refine ⟨content, front, hlen.trans hsize, hshow, hfront, hpre.trans (List.prefix_append _ _),
      ?_, ?_⟩
    · intro hcode
      cases hcode
    · intro hroom
      cases (hsend.room hroom).1
  | true =>
    obtain rfl := hwhole rfl
    have hrun' : run = senderTransferFrom file hashed m request
      (s.skip (parseContinueRequest a.incoming).2 k) := hrun
    obtain ⟨part, hpart, hpre, hdone, hroom⟩ := senderTransferFrom_sends henc.planned
      (hsize.symm ▸ hlt) hlen hashed request hi hshow
      (s.skip (parseContinueRequest a.incoming).2 k) (hsend.isOpen.trans ho)
    rw [hrun']
    refine ⟨content, serializeFileManifest m ++ part, hlen.trans hsize, hshow, ?_, ?_, ?_, ?_⟩
    · rw [hpart, TcpSocket.skip_sent, hfront, List.append_assoc]
    · exact (List.prefix_append_right_inj _).mpr hpre
    · intro hcode
      obtain ⟨hcomplete, rfl⟩ := hdone hcode
      exact ⟨hcomplete, rfl⟩
    · intro hopen
      exact hroom (hsend.room hopen).2

/-- Whatever comes in, over any connection, and whatever happens to the file meanwhile: the sender
answers one request that is in order, ascending and in range, with a part of what is asked for, as
though some file of the announced size held all that its reads got; it reports success only after all
of it, and fails only for a connection, an opening or a read that fails. To anything else it sends no
byte of the file. -/
theorem sender_safe (filePath : Bytes) (file : FileReads) (size : ℕ) (hashed : Bytes)
    (hs : file.size = some size) (hh : file.hashed = some hashed)
    (hn : (manifestFor filePath (UInt64.ofNat size)).filename.length ≤ kMaxFilenameLength)
    (a : TcpSocket) (ho : a.isOpen = true) :
    let m := manifestFor filePath (UInt64.ofNat size)
    let run := senderFrom file filePath a
    ((∀ request, ¬ Asks m a.incoming request) →
      run.1.code = 1 ∧ ∃ part, run.2.sent = a.sent ++ part ∧ part <+: serializeFileManifest m) ∧
    ∀ request, Asks m a.incoming request →
      let idxs := request.missingChunkIndexes
      let complete := file.opens = true ∧ file.readable m 0 idxs = idxs
      idxs.Pairwise (· < ·) ∧ (∀ i ∈ idxs, i < m.chunkCount) ∧
        ∃ content part, content.length = size ∧ file.Shows m content 0 idxs ∧
          run.2.sent = a.sent ++ part ∧ part <+: answerFrom m content hashed idxs ∧
          (run.1.code = 0 → complete ∧ part = answerFrom m content hashed idxs) ∧
          (a.room = none → complete → run.1.code = 0) :=
  ⟨senderFrom_refuses hs hh hn a ho, senderFrom_answers hs hh hn a ho⟩

def rewrittenFile : FileReads where
  size := some 3
  size_lt := by
    intro n hn
    rw [← Option.some.inj hn]
    decide
  hashed := some (ascii "abc")
  opens := true
  read _ offset n := slice (ascii "abd") offset n
  read_le := by
    intro _ offset n
    exact List.length_take_le _ _

def askedForAll : TcpSocket :=
  { incoming := serializeContinueRequest { totalChunks := 1, missingChunkIndexes := [0] } }

theorem sender_safe_rewritten :
    ∃ content part, content.length = 3 ∧
      (senderFrom rewrittenFile (ascii "dir/a.txt") askedForAll).2.sent = part ∧
      (senderFrom rewrittenFile (ascii "dir/a.txt") askedForAll).1.code = 0 ∧
      part = answerFrom (manifestFor (ascii "dir/a.txt") 3) content (ascii "abc") [0] := by
  have hask : Asks (manifestFor (ascii "dir/a.txt") 3) askedForAll.incoming
      { totalChunks := 1, missingChunkIndexes := [0] } :=
    ⟨⟨_, List.prefix_refl _, deserialize_serializeContinueRequest _ (by decide)⟩, by decide⟩
  obtain ⟨-, hanswers⟩ := sender_safe (ascii "dir/a.txt") rewrittenFile 3 (ascii "abc") rfl rfl
    (by decide) askedForAll rfl
  obtain ⟨-, -, content, part, hlen, -, hsent, -, hdone, hroom⟩ := hanswers _ hask
  have hcode := hroom rfl ⟨rfl, by decide⟩
  exact ⟨content, part, hlen, hsent, hcode, (hdone hcode).2⟩

/-- A file that changes while it is sent is not received as the file that was hashed: a receiver that
reports success has an output with the hash computed before the transfer. -/
theorem changing_file_detected (env : Env) (dir filePath : Bytes) (files : Files)
    (file : FileReads) (size : ℕ) (hashed : Bytes) (hs : file.size = some size)
    (hh : file.hashed = some hashed)
    (hn : (manifestFor filePath (UInt64.ofNat size)).filename.length ≤ kMaxFilenameLength)
    (a b : TcpSocket) (hao : a.isOpen = true) (hbo : b.isOpen = true) (hsent : a.sent = [])
    (hin : b.incoming <+: (senderFrom file filePath a).2.sent)
    (hcode : (Prog.run env.exec (receiver dir b) (boot files)).1.1.code = 0) :
    ∃ c, (Prog.run env.exec (receiver dir b) (boot files)).2.files
        (outputPathFor dir (manifestFor filePath (UInt64.ofNat size))) = some c ∧
      sha256File c = sha256File hashed := by
  have henc := manifestFor_encodable filePath _ hn
  have hsize : (manifestFor filePath (UInt64.ofNat size)).fileSize.toNat = size :=
    fileSize_manifestFor hs
  have hstream : ∃ content idxs, content.length = size ∧ b.incoming <+:
      answerFrom (manifestFor filePath (UInt64.ofNat size)) content hashed idxs := by
    by_cases hask : ∃ request, Asks (manifestFor filePath (UInt64.ofNat size)) a.incoming request
    · obtain ⟨request, hask⟩ := hask
      obtain ⟨-, -, content, part, hlen, -, hpart, hpre, -⟩ :=
        senderFrom_answers hs hh hn a hao request hask
      rw [hpart, hsent, List.nil_append] at hin
      exact ⟨content, _, hlen, hin.trans hpre⟩
    · obtain ⟨-, part, hpart, hpre⟩ := senderFrom_refuses hs hh hn a hao (not_exists.mp hask)
      rw [hpart, hsent, List.nil_append] at hin
      exact ⟨List.replicate size 0, [], List.length_replicate,
        (hin.trans hpre).trans (List.prefix_append _ _)⟩
  obtain ⟨content, idxs, hlen, hin⟩ := hstream
  exact announced_integrity env dir files henc rfl (hsize.trans hlen.symm)
    (isSha256Hex_sha256File hashed) idxs b hbo hin hcode

/-- A file of three bytes that has grown by two when its chunk is read. -/
def grownFile : FileReads where
  size := some 3
  size_lt := by
    intro n hn
    rw [← Option.some.inj hn]
    decide
  hashed := some (ascii "abc")
  opens := true
  read _ offset n := slice (ascii "abcde") offset n
  read_le := by
    intro _ offset n
    exact List.length_take_le _ _

theorem changing_file_detected_grown :
    ∃ b, b.incoming = (senderFrom grownFile (ascii "dir/a.txt") askedForAll).2.sent ∧
      (Prog.run Env.direct.exec (receiver (ascii "in") b) (boot emptyDirectory)).1.1.code = 0 ∧
      ∃ c, (Prog.run Env.direct.exec (receiver (ascii "in") b) (boot emptyDirectory)).2.files
        (ascii "in/received_a.txt") = some c ∧ sha256File c = sha256File (ascii "abc") := by
  have hc : Sendable (ascii "abc") := by decide
  have hmanifest : manifestFor (ascii "dir/a.txt") (UInt64.ofNat 3) =
      senderManifest (ascii "dir/a.txt") (ascii "abc") := rfl
  have hn : (senderManifest (ascii "dir/a.txt") (ascii "abc")).filename.length ≤
      kMaxFilenameLength := by
    decide
  have hask : Asks (senderManifest (ascii "dir/a.txt") (ascii "abc")) askedForAll.incoming
      { totalChunks := 1, missingChunkIndexes := [0] } :=
    ⟨⟨_, List.prefix_refl _, deserialize_serializeContinueRequest _ (by decide)⟩, by decide⟩
  obtain ⟨-, -, content, part, hlen, hshow, hsent, -, hdone, hroom⟩ :=
    @senderFrom_answers grownFile (ascii "dir/a.txt") 3 (ascii "abc") rfl rfl hn askedForAll rfl _
      hask
  obtain ⟨-, rfl⟩ := hdone (hroom rfl ⟨rfl, by decide⟩)
  -- the chunk that is read is what was hashed, so the receiver takes it for the file
  have hchunk : slice content 0 3 = ascii "abc" := (hshow 0 0 (by decide)).symm.trans (by decide)
  have hcontent : content = ascii "abc" := by
    rw [← hchunk, slice, List.drop_zero, ← hlen, List.take_length]
  have hanswer : askedForAll.sent ++ answerFrom (senderManifest (ascii "dir/a.txt") (ascii "abc"))
      (ascii "abc") (ascii "abc") [0] =
        serializeFileManifest (senderManifest (ascii "dir/a.txt") (ascii "abc")) ++
          transferStream (senderManifest (ascii "dir/a.txt") (ascii "abc")) (ascii "abc") [0] := rfl
  rw [hcontent, hmanifest, hanswer] at hsent
  obtain ⟨b, hbo, hbroom, hbin⟩ : ∃ b : TcpSocket, b.isOpen = true ∧ b.room = none ∧
      b.incoming = (senderFrom grownFile (ascii "dir/a.txt") askedForAll).2.sent :=
    ⟨{ incoming := (senderFrom grownFile (ascii "dir/a.txt") askedForAll).2.sent }, rfl, rfl, rfl⟩
  have henc := senderManifest_encodable (ascii "dir/a.txt") (ascii "abc") hn
  obtain ⟨hend, -⟩ := run_receiver_manifest (ascii "in") henc (Env.direct_reliable.saveLaw _)
    emptyDirectory b hbo hbroom _ (hbin.trans hsent)
  have hrequest : requestedChunks emptyDirectory (senderManifest (ascii "dir/a.txt") (ascii "abc"))
      (outputPathFor (ascii "in") (senderManifest (ascii "dir/a.txt") (ascii "abc"))) = [0] := by
    decide
  rw [withoutDigest_senderManifest, ← hrequest] at hend
  have htrust : Trusted emptyDirectory (senderManifest (ascii "dir/a.txt") (ascii "abc"))
      (outputPathFor (ascii "in") (senderManifest (ascii "dir/a.txt") (ascii "abc")))
      (ascii "abc") := Trusted.of_none rfl
  have hcode := (htrust.completes henc.planned
    (chunkCount_senderManifest (ascii "dir/a.txt") hc hn) hc hc.fileSize_toNat hend).1
  exact ⟨b, hbin, hcode, changing_file_detected Env.direct (ascii "in") (ascii "dir/a.txt")
    emptyDirectory grownFile 3 (ascii "abc") rfl rfl hn askedForAll b rfl hbo rfl
    (hbin ▸ List.prefix_refl _) hcode⟩

end Answers

end PacketBridge
