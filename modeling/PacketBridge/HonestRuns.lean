import PacketBridge.Framing
import PacketBridge.HonestStream

/-! Runs of the receiver against senders that follow the protocol, over connections cut anywhere:
what the output holds for a checkpoint that is resumed from, and how a run that is not cut ends. -/
namespace PacketBridge
open Foundations

attribute [local irreducible] sha256File

variable {m : FileManifest} {content : Bytes}

/-- A checkpoint that would be resumed from: the output is not longer than the file, and each chunk
listed stands in it as in the file. -/
def Trusted (files : Files) (m : FileManifest) (out content : Bytes) : Prop :=
  ∀ cp c, resumed files m out = some cp → files out = some c → c.length ≤ content.length ∧
    ∀ i ∈ cp.completedChunks, HoldsAt c (m.chunkOffset i) (fileChunk m content i)

theorem Trusted.of_none {files : Files} {out : Bytes}
    (h : files (checkpointPathForOutput out) = none) : Trusted files m out content := by
  intro cp c hres _
  obtain ⟨-, ⟨text, htext, -⟩, -⟩ := resumed_eq_some.mp hres
  rw [h] at htext
  cases htext

/-- A session starts from nothing, or from an output that is right as far as it counts. -/
theorem Trusted.start {files : Files} {out : Bytes} (h : Trusted files m out content) :
    (startingOutput files m out).length ≤ content.length ∧
      ∀ i ∈ (startingCheckpoint files m out).completedChunks,
        HoldsAt (startingOutput files m out) (m.chunkOffset i) (fileChunk m content i) := by
  unfold startingOutput startingCheckpoint
  cases hres : resumed files m out with
  | none =>
    refine ⟨Nat.zero_le _, ?_⟩
    intro i hi
    exact absurd hi (AscSet.not_mem_empty i)
  | some cp =>
    obtain ⟨⟨c, hc⟩, -⟩ := resumed_eq_some.mp hres
    rw [hc]
    exact h cp c hres hc

/-- The chunks a session took stand in the output, and so do those it started with. -/
theorem Trusted.stored {files : Files} {out : Bytes} (h : Trusted files m out content)
    (hm : m.Planned) (hsize : m.fileSize.toNat = content.length) (bs : Bytes)
    (hx : ∀ x ∈ (acceptChunks m (requestedChunks files m out) bs).chunks,
      x.2 = fileChunk m content x.1) :
    let chunks := (acceptChunks m (requestedChunks files m out) bs).chunks
    let c := storeChunks m (startingOutput files m out) chunks
    c.length ≤ content.length ∧
      ∀ i, i ∈ chunks.map Prod.fst ∨ i ∈ (startingCheckpoint files m out).completedChunks →
        HoldsAt c (m.chunkOffset i) (fileChunk m content i) := by
  intro chunks c
  obtain ⟨hlen, hcompleted⟩ := h.start
  have hplanned := acceptChunks_planned hm (requestedChunks files m out) bs
  have hfront := acceptChunks_prefix m (requestedChunks files m out) bs
  have hnodup : (chunks.map Prod.fst).Nodup := nodup_acceptChunks files m out bs
  have hmatch := (checkpointMatchesManifest_iff _ m).mp (startingCheckpoint_matches files m out)
  constructor
  · rw [← hsize] at hlen ⊢
    exact length_storeChunks_le hm _ _ hplanned hlen
  · rintro i (hi | hi)
    · obtain ⟨x, hmem, rfl⟩ := List.mem_map.mp hi
      rw [← hx x hmem]
      exact holdsAt_storeChunks _ chunks hplanned hnodup x hmem
    · have hfresh : i ∉ chunks.map Prod.fst := by
        intro hin
        have hreq := hfront.subset hin
        rw [mem_requestedChunks] at hreq
        exact hreq.2 hi
      apply holdsAt_storeChunks_beside _ _ hplanned _ _ _ hfresh (hcompleted i hi)
      exact length_fileChunk hm hsize (hmatch.2.2.2.2 i hi)

/-- A session on the stream of an honest sender keeps the output trusted. -/
theorem Trusted.session {files : Files} {out : Bytes} (h : Trusted files m out content)
    (hm : m.Planned) (hsize : m.fileSize.toNat = content.length) {bs : Bytes}
    {exit : ReceiverExit} {w : World}
    (hend : SessionEnd (fun cp text => text = checkpointText cp) files m out bs exit w)
    (hx : ∀ x ∈ (acceptChunks m (requestedChunks files m out) bs).chunks,
      x.2 = fileChunk m content x.1) : Trusted w.files m out content := by
  by_cases hcode : exit.code = 0
  · exact Trusted.of_none (hend.removed hcode)
  · obtain ⟨text, hf, rfl⟩ := hend.checkpoint hcode
    obtain ⟨hlen, hall⟩ := h.stored hm hsize bs hx
    intro cp c hres hc
    obtain ⟨-, ⟨text, hf', hp⟩, -⟩ := resumed_eq_some.mp hres
    obtain rfl := Option.some.inj (hf.symm.trans hf')
    obtain rfl := Option.some.inj (hend.output.symm.trans hc)
    refine ⟨hlen, ?_⟩
    intro i hi
    rw [fields_of_parseCheckpoint _ _ hp] at hi
    exact hall i ((mem_withChunks _ _ i).mp hi)

/-- The session of a file of another size leaves no checkpoint that this one would resume from. -/
theorem Trusted.other_size {S : FileManifest} {files : Files} {out bs : Bytes}
    {exit : ReceiverExit} {w : World}
    (hend : SessionEnd (fun cp text => text = checkpointText cp) files S out bs exit w)
    (hne : S.fileSize ≠ m.fileSize) : Trusted w.files m out content := by
  by_cases hcode : exit.code = 0
  · exact Trusted.of_none (hend.removed hcode)
  · obtain ⟨text, hf, rfl⟩ := hend.checkpoint hcode
    intro cp c hres _
    obtain ⟨-, ⟨text, hf', hp⟩, hmatch⟩ := resumed_eq_some.mp hres
    obtain rfl := Option.some.inj (hf.symm.trans hf')
    obtain ⟨-, hsize, -⟩ :=
      (checkpointMatchesManifest_iff _ S).mp (startingCheckpoint_matches files S out)
    rw [fields_of_parseCheckpoint _ _ hp, checkpointMatchesManifest_iff] at hmatch
    exact absurd (hsize.symm.trans hmatch.2.1) hne

/-- An output with every chunk of the file in its place is the file. -/
theorem eq_of_holdsAt (hm : m.Planned)
    (hcount : m.chunkCount.toNat = m.fileSize.toNat ⌈/⌉ m.chunkSize.toNat)
    (hsize : m.fileSize.toNat = content.length) (c : Bytes) (hlen : c.length ≤ content.length)
    (hall : ∀ i < m.chunkCount, HoldsAt c (m.chunkOffset i) (fileChunk m content i)) :
    c = content := by
  apply List.ext_getElem?
  intro pos
  rcases Nat.lt_or_ge pos content.length with hpos | hpos
  · obtain ⟨i, hi, hlow, hhigh⟩ := hm.exists_chunk hcount (hsize.symm ▸ hpos)
    have hend := hm.chunk_end_le hi
    have hholds := hall i hi
    rw [fileChunk, holdsAt_slice_iff _ _ _ _ (by omega)] at hholds
    exact hholds pos hlow hhigh
  · rw [List.getElem?_eq_none (by omega), List.getElem?_eq_none hpos]

theorem contentHash_parsed (m : FileManifest) (content : Bytes) :
    (parseHashPacket (serializeHashPacket (contentHash m content))).1 =
      some (contentHash m content) := by
  have happend := parseHashPacket_append (contentHash m content)
    (isSha256Hex_sha256File content) []
  rw [List.append_nil] at happend
  rw [happend]

theorem requestedChunks_lt (files : Files) (m : FileManifest) (out : Bytes) :
    ∀ i ∈ requestedChunks files m out, i < m.chunkCount := by
  intro i hi
  exact ((mem_requestedChunks files m out i).mp hi).1

/-- With all the chunks that are asked for, the output is the file. -/
theorem Trusted.storeAll {files : Files} {out : Bytes} (h : Trusted files m out content)
    (hm : m.Planned) (hcount : m.chunkCount.toNat = m.fileSize.toNat ⌈/⌉ m.chunkSize.toNat)
    (hc : Sendable content) (hsize : m.fileSize.toNat = content.length) :
    storeChunks m (startingOutput files m out)
      ((requestedChunks files m out).map fun i => (i, fileChunk m content i)) = content := by
  have hwhole := acceptChunks_chunkStream hm hc hsize (requestedChunks files m out)
    (requestedChunks_lt files m out) []
  have hx : ∀ x ∈ (acceptChunks m (requestedChunks files m out)
      (chunkStream m content (requestedChunks files m out) ++ [])).chunks,
      x.2 = fileChunk m content x.1 := by
    rw [hwhole]
    intro x hx
    obtain ⟨i, -, rfl⟩ := List.mem_map.mp hx
    rfl
  obtain ⟨hlen, hall⟩ := h.stored hm hsize _ hx
  rw [hwhole] at hlen hall
  apply eq_of_holdsAt hm hcount hsize _ hlen
  intro i hi
  apply hall i
  by_cases hdone : i ∈ (startingCheckpoint files m out).completedChunks
  · exact Or.inr hdone
  · refine Or.inl (List.mem_map.mpr ⟨(i, fileChunk m content i), ?_, rfl⟩)
    exact List.mem_map.mpr ⟨i, (mem_requestedChunks files m out i).mpr ⟨hi, hdone⟩, rfl⟩

/-- A session that gets the whole transfer it asked for ends with the file. -/
theorem Trusted.completes {files : Files} {out : Bytes} (h : Trusted files m out content)
    (hm : m.Planned) (hcount : m.chunkCount.toNat = m.fileSize.toNat ⌈/⌉ m.chunkSize.toNat)
    (hc : Sendable content) (hsize : m.fileSize.toNat = content.length) {exit : ReceiverExit}
    {w : World} (hend : SessionEnd (fun cp text => text = checkpointText cp) files m out
      (transferStream m content (requestedChunks files m out)) exit w) :
    exit.code = 0 ∧ w.files out = some content ∧ w.files (checkpointPathForOutput out) = none := by
  have hwhole := acceptChunks_chunkStream hm hc hsize (requestedChunks files m out)
    (requestedChunks_lt files m out) (serializeHashPacket (contentHash m content))
  rw [← transferStream] at hwhole
  have hout := hend.output
  have hexit := hend.exit_eq
  rw [hwhole, h.storeAll hm hcount hc hsize] at hout hexit
  rw [Option.getD_none,
    verdict_of_announced m out content _ _ (contentHash_parsed m content) rfl rfl] at hexit
  have hcode : exit.code = 0 := by
    rw [hexit]
    rfl
  exact ⟨hcode, hout, hend.removed hcode⟩

/-- A run of the receiver and a sender of the file at `filePath` with these bytes, over a connection
that may be cut anywhere in both directions: what reaches one end is the beginning of what the
other has sent. -/
structure LinkedRun (env : Env) (dir : Bytes) (files : Files) (filePath content : Bytes)
    (a b : TcpSocket) : Prop where
  reliable : env.Reliable
  sendable : Sendable content
  nameShort : (senderManifest filePath content).filename.length ≤ kMaxFilenameLength
  openSender : a.isOpen = true
  openReceiver : b.isOpen = true
  sentNothing : a.sent = [] ∧ b.sent = []
  toReceiver : b.incoming <+: (sender filePath content a).2.sent
  toSender : a.incoming <+: (Prog.run env.exec (receiver dir b) (boot files)).1.2.sent

/-- The connection is not cut: all that is sent arrives. -/
structure UncutRun (env : Env) (dir : Bytes) (files : Files) (filePath content : Bytes)
    (a b : TcpSocket) : Prop extends LinkedRun env dir files filePath content a b where
  room : a.room = none ∧ b.room = none
  allToReceiver : b.incoming = (sender filePath content a).2.sent
  allToSender : a.incoming = (Prog.run env.exec (receiver dir b) (boot files)).1.2.sent

/-- What a run against an honest sender is: nothing received and nothing changed, or a session on
the sender's manifest over the beginning of a transfer of its file. -/
theorem LinkedRun.cases {env : Env} {dir : Bytes} {files : Files} {filePath : Bytes}
    {a b : TcpSocket} (h : LinkedRun env dir files filePath content a b) :
    (Prog.run env.exec (receiver dir b) (boot files)).2.files = files ∨
    ∃ idxs bs exit, bs <+: transferStream (senderManifest filePath content) content idxs ∧
      SessionEnd (fun cp text => text = checkpointText cp) files (senderManifest filePath content)
        (outputPathFor dir (senderManifest filePath content)) bs exit
        (Prog.run env.exec (receiver dir b) (boot files)).2 := by
  obtain ⟨idxs, part, hsent, hpart⟩ := sender_sends filePath h.sendable h.nameShort a h.openSender
  have henc := senderManifest_encodable filePath content h.nameShort
  have hin := h.toReceiver
  rw [hsent, h.sentNothing.1, List.nil_append] at hin
  cases hreceived : (receiveFileManifest b).1 with
  | none =>
    left
    rw [run_receiver_rejected env dir files b hreceived]
    rfl
  | some m =>
    obtain ⟨rfl, hrest⟩ := received_honest henc (withoutDigest_senderManifest _ _) b
      h.openReceiver _ (hin.trans hpart) m hreceived
    obtain ⟨-, hopen, hreceiver⟩ := receiver_of_received dir b h.openReceiver _ hreceived
    obtain ⟨exit, s', w, n, hrun, -, hend⟩ := run_receiverSession henc.planned dir
      (h.reliable.saveLaw _) files (receiveFileManifest b).2 hopen
    rw [hreceiver, hrun]
    rcases hend with ⟨-, hfiles, -⟩ | ⟨hend, -⟩
    · exact Or.inl hfiles
    · exact Or.inr ⟨idxs, _, exit, hrest, hend⟩

/-- A sender whose connection takes all it sends: the manifest goes out first, and the rest is the
answer to what comes in. -/
theorem sender_eq_answer (filePath : Bytes)
    (hn : (senderManifest filePath content).filename.length ≤ kMaxFilenameLength) (a : TcpSocket)
    (ho : a.isOpen = true) (hr : a.room = none) :
    ∃ (s : TcpSocket) (k : ℕ), s.isOpen = true ∧ s.room = none ∧
      s.sent = a.sent ++ serializeFileManifest (senderManifest filePath content) ∧
      sender filePath content a = (parseContinueRequest a.incoming).1.elim
        (.requestNotReceived, s.skip (parseContinueRequest a.incoming).2 k) fun request =>
          if validateContinueRequest (senderManifest filePath content) request then
            senderTransfer content (senderManifest filePath content) request
              (s.skip (parseContinueRequest a.incoming).2 k)
          else (.requestNotReceived, s.skip (parseContinueRequest a.incoming).2 k) := by
  have henc := senderManifest_encodable filePath content hn
  rw [sender, senderSession]
  generalize senderManifest filePath content = m at henc
  have hsend := a.sendAll_sends (serializeFileManifest m) ho
  have hmanifest := sendMessage_eq a (.manifest m) henc
  change sendFileManifest a m = a.sendAll (serializeFileManifest m) at hmanifest
  rw [hmanifest]
  generalize a.sendAll (serializeFileManifest m) = sent at hsend
  obtain ⟨ok, s1⟩ := sent
  obtain ⟨hok, hroom⟩ := hsend.room hr
  obtain rfl : ok = true := hok
  obtain ⟨part, hpart, -, hwhole⟩ := hsend.sent
  obtain rfl := hwhole rfl
  have hopen : s1.isOpen = true := hsend.isOpen.trans ho
  obtain ⟨k, hk⟩ := receiveContinueRequest_reads s1 hopen
  have hin : s1.incoming = a.incoming := hsend.incoming
  rw [hin] at hk
  refine ⟨s1, k, hopen, hroom, hpart, ?_⟩
  simp only [hk]
  cases (parseContinueRequest a.incoming).1 <;> rfl

/-- The manifest is the beginning of all that such a sender sends. -/
theorem sender_sends_manifest (filePath : Bytes) (hc : Sendable content)
    (hn : (senderManifest filePath content).filename.length ≤ kMaxFilenameLength) (a : TcpSocket)
    (ho : a.isOpen = true) (hr : a.room = none) :
    ∃ rest, (sender filePath content a).2.sent =
      a.sent ++ (serializeFileManifest (senderManifest filePath content) ++ rest) := by
  obtain ⟨s, k, hopen, -, hsent, heq⟩ := sender_eq_answer filePath hn a ho hr
  have hplan := (senderManifest_encodable filePath content hn).planned
  have hsize : (senderManifest filePath content).fileSize.toNat = content.length :=
    hc.fileSize_toNat
  rw [heq]
  generalize senderManifest filePath content = m at hplan hsize hsent
  have hnothing : (s.skip (parseContinueRequest a.incoming).2 k).sent =
      a.sent ++ (serializeFileManifest m ++ []) := by
    rw [TcpSocket.skip_sent, hsent, List.append_nil]
  cases (parseContinueRequest a.incoming).1 with
  | none => exact ⟨[], hnothing⟩
  | some request =>
    rw [Option.elim_some]
    split_ifs with hvalid
    · obtain ⟨ok, -, htransfer⟩ := senderTransfer_sends hplan hc hsize request
        (range_of_validateContinueRequest hvalid) (s.skip (parseContinueRequest a.incoming).2 k)
        hopen
      obtain ⟨part, hpart, -⟩ := htransfer.sent
      refine ⟨part, ?_⟩
      rw [hpart, TcpSocket.skip_sent, hsent, List.append_assoc]
    · exact ⟨[], hnothing⟩

theorem UncutRun.received {env : Env} {dir : Bytes} {files : Files} {filePath : Bytes}
    {a b : TcpSocket} (h : UncutRun env dir files filePath content a b) :
    (receiveFileManifest b).1 = some (senderManifest filePath content) := by
  obtain ⟨rest, hrest⟩ := sender_sends_manifest filePath h.sendable h.nameShort a h.openSender
    h.room.1
  rw [h.sentNothing.1, List.nil_append, ← h.allToReceiver] at hrest
  obtain ⟨k, hk⟩ := receive_serializeFileManifest _
    (senderManifest_encodable filePath content h.nameShort) b h.openReceiver rest hrest
  rw [hk, withoutDigest_senderManifest]

/-- On a request within the limit it sends the whole transfer. -/
theorem sender_answers (filePath : Bytes) (hc : Sendable content)
    (hn : (senderManifest filePath content).filename.length ≤ kMaxFilenameLength) (a : TcpSocket)
    (ho : a.isOpen = true) (hr : a.room = none) (cp : TransferCheckpoint)
    (hcp : ResumableWith (senderManifest filePath content) cp)
    (hlimit : (missingChunks cp).length ≤ 1000000)
    (hin : a.incoming =
      serializeContinueRequest (requestFor (senderManifest filePath content) cp)) :
    (sender filePath content a).2.sent =
      a.sent ++ (serializeFileManifest (senderManifest filePath content) ++
        transferStream (senderManifest filePath content) content (missingChunks cp)) := by
  obtain ⟨s, k, hopen, hroom, hsent, heq⟩ := sender_eq_answer filePath hn a ho hr
  have hplan := (senderManifest_encodable filePath content hn).planned
  have hsize : (senderManifest filePath content).fileSize.toNat = content.length :=
    hc.fileSize_toNat
  rw [heq]
  generalize senderManifest filePath content = m at hplan hsize hsent hcp hin
  have hparse := parseContinueRequest_append (requestFor m cp) []
    ((length_missingChunks_le cp).trans_lt cp.totalChunks.toNat_lt)
  have hwithin : (requestFor m cp).missingChunkIndexes.length ≤ kMaxChunkIndexes.toNat := hlimit
  rw [List.append_nil, ← hin, if_pos hwithin] at hparse
  have hvalid := requestFor_validates hcp
  rw [hparse, Option.elim_some, if_pos hvalid]
  obtain ⟨ok, -, htransfer⟩ := senderTransfer_sends hplan hc hsize (requestFor m cp)
    (range_of_validateContinueRequest hvalid)
    (s.skip a.incoming.length k) hopen
  obtain ⟨hok, -⟩ := htransfer.room hroom
  obtain ⟨part, hpart, -, hwhole⟩ := htransfer.sent
  rw [hpart, hwhole hok, TcpSocket.skip_sent, hsent, List.append_assoc]
  rfl

/-- On a request over the limit it sends nothing more. -/
theorem sender_rejects (filePath : Bytes)
    (hn : (senderManifest filePath content).filename.length ≤ kMaxFilenameLength) (a : TcpSocket)
    (ho : a.isOpen = true) (hr : a.room = none) (cp : TransferCheckpoint)
    (hlimit : ¬ (missingChunks cp).length ≤ 1000000)
    (hin : a.incoming =
      serializeContinueRequest (requestFor (senderManifest filePath content) cp)) :
    (sender filePath content a).2.sent =
      a.sent ++ (serializeFileManifest (senderManifest filePath content) ++ []) := by
  obtain ⟨s, k, -, -, hsent, heq⟩ := sender_eq_answer filePath hn a ho hr
  rw [heq]
  generalize senderManifest filePath content = m at hsent hin
  have hparse := parseContinueRequest_append (requestFor m cp) []
    ((length_missingChunks_le cp).trans_lt cp.totalChunks.toNat_lt)
  have hover : ¬ (requestFor m cp).missingChunkIndexes.length ≤ kMaxChunkIndexes.toNat := hlimit
  rw [List.append_nil, ← hin, if_neg hover] at hparse
  rw [hparse, Option.elim_none, TcpSocket.skip_sent, hsent, List.append_nil]

/-- What the sender answers to the request of a session: the transfer that it asks for, or nothing
when it asks for too much. -/
def answerStream (files : Files) (m : FileManifest) (out content : Bytes) : Bytes :=
  if (requestedChunks files m out).length ≤ 1000000 then
    transferStream m content (requestedChunks files m out)
  else []

/-- In a run that is not cut the receiver gets the whole answer to its request. -/
theorem UncutRun.session {env : Env} {dir : Bytes} {files : Files} {filePath : Bytes}
    {a b : TcpSocket} (h : UncutRun env dir files filePath content a b) :
    SessionEnd (fun cp text => text = checkpointText cp) files (senderManifest filePath content)
      (outputPathFor dir (senderManifest filePath content))
      (answerStream files (senderManifest filePath content)
        (outputPathFor dir (senderManifest filePath content)) content)
      (Prog.run env.exec (receiver dir b) (boot files)).1.1
      (Prog.run env.exec (receiver dir b) (boot files)).2 := by
  have henc := senderManifest_encodable filePath content h.nameShort
  obtain ⟨hasent, hbsent⟩ := h.sentNothing
  obtain ⟨haroom, hbroom⟩ := h.room
  obtain ⟨rest, hrest⟩ := sender_sends_manifest filePath h.sendable h.nameShort a h.openSender haroom
  have hin := h.allToReceiver
  rw [hrest, hasent, List.nil_append] at hin
  obtain ⟨hend, hsent⟩ := run_receiver_manifest dir henc (h.reliable.saveLaw _) files b
    h.openReceiver hbroom rest hin
  rw [withoutDigest_senderManifest] at hend hsent
  rw [hbsent, List.nil_append] at hsent
  -- the sender has got the receiver's request, and has answered it
  have hasked := h.allToSender.trans hsent
  have hmatch : ResumableWith (senderManifest filePath content) (startingCheckpoint files
      (senderManifest filePath content) (outputPathFor dir (senderManifest filePath content))) :=
    Or.inr (startingCheckpoint_matches _ _ _)
  have hstream : rest = answerStream files (senderManifest filePath content)
      (outputPathFor dir (senderManifest filePath content)) content := by
    unfold answerStream
    by_cases hlimit : (requestedChunks files (senderManifest filePath content)
        (outputPathFor dir (senderManifest filePath content))).length ≤ 1000000
    · have hanswer := sender_answers filePath h.sendable h.nameShort a h.openSender haroom _
        hmatch hlimit hasked
      rw [hrest] at hanswer
      rw [if_pos hlimit]
      exact List.append_cancel_left (List.append_cancel_left hanswer)
    · have hanswer := sender_rejects filePath h.nameShort a h.openSender haroom _ hlimit hasked
      rw [hrest] at hanswer
      rw [if_neg hlimit]
      exact List.append_cancel_left (List.append_cancel_left hanswer)
  rw [hstream] at hend
  exact hend

/-- Two ends of a connection that loses nothing, up to the first `n` bytes that the sender answers
with. -/
def answeringReceiver (files : Files) (m : FileManifest) (out content : Bytes) (n : ℕ) : TcpSocket :=
  { incoming := serializeFileManifest m ++
      (transferStream m content (requestedChunks files m out)).take n }

def askedSender (files : Files) (m : FileManifest) (out : Bytes) : TcpSocket :=
  { incoming := serializeContinueRequest (sessionRequest files m out) }

theorem sessionRequest_eq (files : Files) (m : FileManifest) (out : Bytes) :
    sessionRequest files m out = requestFor m (startingCheckpoint files m out) := rfl

/-- Such a connection is one that can be, and the session sees that much of the transfer. -/
theorem linked_exists {env : Env} (hr : env.Reliable) (dir : Bytes) (files : Files)
    (filePath : Bytes) (hc : Sendable content)
    (hn : (senderManifest filePath content).filename.length ≤ kMaxFilenameLength)
    (hlimit : (requestedChunks files (senderManifest filePath content)
      (outputPathFor dir (senderManifest filePath content))).length ≤ 1000000) (n : ℕ) :
    ∃ a b, LinkedRun env dir files filePath content a b ∧
      SessionEnd (fun cp text => text = checkpointText cp) files (senderManifest filePath content)
        (outputPathFor dir (senderManifest filePath content))
        ((transferStream (senderManifest filePath content) content (requestedChunks files
          (senderManifest filePath content)
          (outputPathFor dir (senderManifest filePath content)))).take n)
        (Prog.run env.exec (receiver dir b) (boot files)).1.1
        (Prog.run env.exec (receiver dir b) (boot files)).2 ∧
      ((transferStream (senderManifest filePath content) content (requestedChunks files
        (senderManifest filePath content)
        (outputPathFor dir (senderManifest filePath content)))).length ≤ n →
        UncutRun env dir files filePath content a b) := by
  have henc := senderManifest_encodable filePath content hn
  have hdigest := withoutDigest_senderManifest filePath content
  have hanswers := sender_answers filePath hc hn
  generalize senderManifest filePath content = m at henc hdigest hanswers hlimit ⊢
  generalize hout : outputPathFor dir m = out at hlimit ⊢
  have hmatch : ResumableWith m (startingCheckpoint files m out) :=
    Or.inr (startingCheckpoint_matches _ _ _)
  -- the two ends are chosen so that each gets what the other sends
  obtain ⟨a, haopen, haroom, hasent, hain⟩ : ∃ a : TcpSocket, a.isOpen = true ∧ a.room = none ∧
      a.sent = [] ∧ a.incoming = serializeContinueRequest (sessionRequest files m out) :=
    ⟨askedSender files m out, rfl, rfl, rfl, rfl⟩
  obtain ⟨b, hbopen, hbroom, hbsent, hbin⟩ : ∃ b : TcpSocket, b.isOpen = true ∧ b.room = none ∧
      b.sent = [] ∧ b.incoming = serializeFileManifest m ++
        (transferStream m content (requestedChunks files m out)).take n :=
    ⟨answeringReceiver files m out content n, rfl, rfl, rfl, rfl⟩
  have hanswer := hanswers a haopen haroom _ hmatch hlimit (by rw [hain, sessionRequest_eq])
  rw [hasent, List.nil_append, ← requestedChunks] at hanswer
  obtain ⟨hend, hreach⟩ := run_receiver_manifest dir henc (hr.saveLaw _) files b hbopen hbroom _
    hbin
  rw [hdigest, hout] at hend hreach
  rw [hbsent, List.nil_append, ← hain] at hreach
  have hlinked : LinkedRun env dir files filePath content a b := by
    refine ⟨hr, hc, hn, haopen, hbopen, ⟨hasent, hbsent⟩, ?_, ?_⟩
    · rw [hanswer, hbin, List.prefix_append_right_inj]
      exact List.take_prefix _ _
    · rw [hreach]
  refine ⟨a, b, hlinked, hend, ?_⟩
  intro hle
  refine ⟨hlinked, ⟨haroom, hbroom⟩, ?_, hreach.symm⟩
  rw [hbin, List.take_of_length_le hle, hanswer]

theorem uncutRun_exists {env : Env} (hr : env.Reliable) (dir : Bytes) (files : Files)
    (filePath : Bytes) (hc : Sendable content)
    (hn : (senderManifest filePath content).filename.length ≤ kMaxFilenameLength)
    (hlimit : (requestedChunks files (senderManifest filePath content)
      (outputPathFor dir (senderManifest filePath content))).length ≤ 1000000) :
    ∃ a b, UncutRun env dir files filePath content a b := by
  obtain ⟨a, b, -, -, huncut⟩ := linked_exists hr dir files filePath hc hn hlimit _
  exact ⟨a, b, huncut le_rfl⟩

end PacketBridge
