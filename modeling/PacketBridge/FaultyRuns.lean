import PacketBridge.Foundations.Hoare
import PacketBridge.Interleaving

/-! The receiver on any system, whichever of its calls fail and however: what a success still stands
on, and what the other end gets to see. -/
namespace PacketBridge
open Foundations

attribute [local irreducible] sha256File

variable {env : Env} {m : FileManifest} {out : Bytes}

/-- A success stands on the chunks asked for and a hash packet behind them, all of them in the stream,
and the packet carries the hash of the output on the disk. -/
def Verified (m : FileManifest) (out : Bytes) (idxs : List UInt64) (bs : Bytes) (files : Files) :
    Prop :=
  ∃ packet c, (acceptChunks m idxs bs).failed = none ∧
    (parseHashPacket (acceptChunks m idxs bs).rest).1 = some packet ∧
    packet.sessionId = m.sessionId ∧ files out = some c ∧ sha256File c = packet.sha256Hex

/-- A seek beyond the largest offset leaves a stream that is not good, on any system. -/
theorem seekp_far (env : Env) (w : World) {offset : UInt64} (hfar : maxOffset ≤ offset.toNat) :
    ((env.exec (.seekp out offset) w).2.streams out).good = false := by
  simp only [Env.exec, FileOp.effect]
  split
  · rename_i hg
    exact hg
  · split
    · rw [World.spoil, World.setStream_streams_self]
    · rw [if_neg (not_lt.mpr hfar), World.setStream_streams_self]

/-- How the chunks of a session leave the connection: nothing is sent, a failure has status 1, and
there is none only when the stream had a chunk for every index. -/
def ChunksTaken (m : FileManifest) (idxs : List UInt64) (s : TcpSocket)
    (result : Option ReceiverExit × ProgressTracker × TcpSocket) : Prop :=
  ∃ n k, result.2.2 = s.skip n k ∧ (∀ exit ∈ result.1, exit.code = 1) ∧
    (result.1 = none → (acceptChunks m idxs s.incoming).failed = none ∧
      (acceptChunks m idxs s.incoming).rest = s.incoming.drop n)

theorem ChunksTaken.stopped {exit : ReceiverExit} (hcode : exit.code = 1) (idxs : List UInt64)
    (t : ProgressTracker) (s : TcpSocket) (n k : ℕ) :
    ChunksTaken m idxs s (some exit, t, s.skip n k) := by
  refine ⟨n, k, rfl, ?_, fun h => by cases h⟩
  intro e he
  obtain rfl := Option.some.inj he
  exact hcode

theorem receiveLoop_ensures (hm : m.Planned) (ckpt : Bytes) (idxs : List UInt64)
    (cp : TransferCheckpoint) (t : ProgressTracker) (s : TcpSocket) (ho : s.isOpen = true)
    (w : World) :
    Prog.Ensures env.exec (receiveLoop out ckpt m idxs cp t s) w
      fun result _ => ChunksTaken m idxs s result := by
  -- the induction is on the indexes still expected
  induction idxs generalizing cp t s w with
  | nil =>
    refine Prog.Ensures.pure ⟨0, s.recvs, rfl, ?_, fun _ => ⟨rfl, rfl⟩⟩
    intro exit hexit
    cases hexit
  | cons i is ih =>
    rcases receiveLoop_turn hm out ckpt i is cp t s ho with
      ⟨exit, n, k, hloop, hacc⟩ | ⟨offset, payload, n, k, -, -, -, hacc, hloop⟩
    · rw [hloop]
      apply Prog.Ensures.pure
      apply ChunksTaken.stopped
      exact acceptChunks_failed_code m (i :: is) s.incoming exit (by rw [hacc])
    · rw [hloop]
      have hseek : Prog.Ensures env.exec (call (.seekp out offset)) w fun _ t =>
          maxOffset ≤ offset.toNat → (t.streams out).good = false :=
        Prog.Ensures.perform (seekp_far env w)
      refine hseek.bind ?_
      intro _ w1 hbad
      have hwrite : Prog.Ensures env.exec (call (.write out payload)) w1 fun written _ =>
          written = true → offset.toNat < maxOffset := by
        apply Prog.Ensures.perform
        intro hwritten
        by_contra hfar
        rw [exec_write_bad (hbad (not_lt.mp hfar))] at hwritten
        cases hwritten
      refine hwrite.bind ?_
      intro written w2 hnear
      cases written with
      | false => exact Prog.Ensures.pure (ChunksTaken.stopped rfl _ t s n k)
      | true =>
        rw [if_pos rfl]
        apply Prog.Ensures.bind_any
        intro saved w3
        cases saved with
        | false => exact Prog.Ensures.pure (ChunksTaken.stopped rfl _ _ s n k)
        | true =>
          refine (ih (cp.withChunks [i]) (t.afterChunks m [i]) (s.skip n k) ho w3).mono ?_
          rintro result _ ⟨n', k', hskip, hcode, hdone⟩
          refine ⟨n+n', k', by rw [hskip, TcpSocket.skip_skip], hcode, ?_⟩
          intro hnone
          obtain ⟨hfailed, hrest⟩ := hdone hnone
          rw [hacc, if_neg (not_le.mpr (hnear rfl))]
          refine ⟨hfailed, hrest.trans ?_⟩
          rw [TcpSocket.skip_incoming, List.drop_drop]

theorem receiveFileChunks_ensures (hm : m.Planned) (ckpt : Bytes) (idxs : List UInt64)
    (cp : TransferCheckpoint) (t : ProgressTracker) (s : TcpSocket) (ho : s.isOpen = true)
    (fresh : Bool) (w : World) :
    Prog.Ensures env.exec (receiveFileChunks s out ckpt m idxs cp t fresh) w
      fun result _ => ChunksTaken m idxs s result := by
  apply Prog.Ensures.bind_any
  intro prepared w1
  cases prepared with
  | false => exact Prog.Ensures.pure (ChunksTaken.stopped rfl _ t s 0 s.recvs)
  | true =>
    rw [if_pos rfl]
    apply Prog.Ensures.bind_any
    intro opened w2
    cases opened with
    | false => exact Prog.Ensures.pure (ChunksTaken.stopped rfl _ t s 0 s.recvs)
    | true =>
      rw [if_pos rfl]
      refine (receiveLoop_ensures hm ckpt idxs cp t s ho w2).bind ?_
      intro result w3 hresult
      apply Prog.Ensures.bind_any
      intro _ w4
      exact Prog.Ensures.pure hresult

/-- The verification on any system: a success means that the packet carries the hash of what stands
on the disk, also at the end. -/
theorem verifyOutput_ensures (s : TcpSocket) (ho : s.isOpen = true) (w : World) :
    Prog.Ensures env.exec (verifyOutput s out (checkpointPathForOutput out) m) w fun r w' =>
      r.2.sent = s.sent ∧ (r.1.code = 0 → ∃ packet c,
        (parseHashPacket s.incoming).1 = some packet ∧ packet.sessionId = m.sessionId ∧
          w'.files out = some c ∧ sha256File c = packet.sha256Hex) := by
  obtain ⟨k, hk⟩ := receiveHashPacket_reads s ho
  rw [verifyOutput, hk]
  cases hgot : (parseHashPacket s.incoming).1 with
  | none => exact Prog.Ensures.pure ⟨rfl, fun h => by cases h⟩
  | some packet =>
    simp only
    split_ifs with hsession
    · exact Prog.Ensures.pure ⟨rfl, fun h => by cases h⟩
    · rw [not_not] at hsession
      have hread : Prog.Ensures env.exec (call (.read out)) w fun output t =>
          ∀ c, output = some c → t.files out = some c := by
        apply Prog.Ensures.perform
        intro c hc
        simp only [Env.exec, FileOp.effect] at hc ⊢
        split at hc
        · exact hc
        · cases hc
      refine hread.bind ?_
      intro output w1 hfile
      cases output with
      | none => exact Prog.Ensures.pure ⟨rfl, fun h => by cases h⟩
      | some content =>
        simp only
        split_ifs with hhash
        · -- the checkpoint is taken away, which leaves the output
          have hremove : Prog.Calls (fun o : FileOp => out ∉ o.touches)
              (removeCheckpoint (checkpointPathForOutput out)) :=
            calls_removeCheckpoint (not_mem_touches_read out) (admits_beside out).remove
          have hkept : Prog.Ensures env.exec (removeCheckpoint (checkpointPathForOutput out)) w1
              fun _ t => t.files out = some content := by
            apply hremove.ensures env.exec (hfile content rfl)
            intro o t ho ht
            rw [(exec_same env o t out ho).files, ht]
          refine hkept.bind ?_
          intro removed w2 hw2
          exact Prog.Ensures.pure ⟨rfl, fun _ => ⟨packet, content, rfl, hsession, hw2, hhash⟩⟩
        · exact Prog.Ensures.pure ⟨rfl, fun h => by cases h⟩

/-- What follows the loading of the checkpoint: the request is all it sends, and a success is
verified. -/
theorem continueSession_ensures (hm : m.Planned) (s : TcpSocket) (ho : s.isOpen = true)
    (loaded : Option TransferCheckpoint) (w : World) :
    Prog.Ensures env.exec (continueSession out m s loaded) w fun r w' =>
      r.2.sent = (sendContinueRequest s {
        sessionId := m.sessionId
        totalChunks := m.chunkCount
        missingChunkIndexes :=
          missingChunks (loaded.getD (createCheckpointFromManifest m)) }).2.sent ∧
      (r.1.code = 0 → ∃ idxs, r.2.sent = s.sent ++ serializeContinueRequest {
        sessionId := m.sessionId
        totalChunks := m.chunkCount
        missingChunkIndexes := idxs } ∧ Verified m out idxs s.incoming w'.files) := by
  simp only [continueSession]
  generalize loaded.getD (createCheckpointFromManifest m) = cp
  have hsends := s.sendAll_sends (serializeContinueRequest {
    sessionId := m.sessionId
    totalChunks := m.chunkCount
    missingChunkIndexes := missingChunks cp }) ho
  rw [sendContinueRequest]
  generalize s.sendAll _ = sent at hsends
  obtain ⟨ok, client⟩ := sent
  have hopen : client.isOpen = true := hsends.isOpen.trans ho
  have hin : client.incoming = s.incoming := hsends.incoming
  cases ok with
  | false => exact Prog.Ensures.pure ⟨rfl, fun h => by cases h⟩
  | true =>
    rw [if_pos rfl]
    apply Prog.Ensures.bind_any
    intro saved w1
    cases saved with
    | false => exact Prog.Ensures.pure ⟨rfl, fun h => by cases h⟩
    | true =>
      rw [if_pos rfl]
      refine (receiveFileChunks_ensures hm _ _ cp _ client hopen _ w1).bind ?_
      rintro ⟨failed, t, client'⟩ w2 ⟨n, k, rfl, hcode, hdone⟩
      cases failed with
      | some exit =>
        refine Prog.Ensures.pure ⟨rfl, ?_⟩
        intro h
        rw [hcode exit rfl] at h
        cases h
      | none =>
        obtain ⟨hfailed, hrest⟩ := hdone rfl
        refine (verifyOutput_ensures (client.skip n k) hopen w2).mono ?_
        rintro r w' ⟨hsent, hverified⟩
        refine ⟨hsent, ?_⟩
        intro h
        obtain ⟨packet, c, hpacket, hsession, hc, hhash⟩ := hverified h
        rw [TcpSocket.skip_incoming, ← hrest, hin] at hpacket
        rw [hin] at hfailed
        obtain ⟨part, hpart, -, hwhole⟩ := hsends.sent
        obtain rfl := hwhole rfl
        exact ⟨_, hsent.trans hpart, packet, c, hfailed, hpacket, hsession, hc, hhash⟩

theorem receiverSession_verified (hm : m.Planned) (dir : Bytes) (s : TcpSocket)
    (ho : s.isOpen = true) (w : World) :
    Prog.Ensures env.exec (receiverSession dir m s) w fun r w' =>
      r.1.code = 0 → ∃ idxs, r.2.sent = s.sent ++ serializeContinueRequest {
        sessionId := m.sessionId
        totalChunks := m.chunkCount
        missingChunkIndexes := idxs } ∧ Verified m (outputPathFor dir m) idxs s.incoming w'.files := by
  rw [receiverSession_eq]
  apply Prog.Ensures.bind_any
  intro loaded w1
  exact (continueSession_ensures hm s ho loaded w1).mono fun _ _ h => h.2

/-- On any system, with any sender, whatever the directory holds: the receiver reports success only
when the stream had a chunk for each index it has asked for and behind them a hash packet of the
session, and the output on the disk has that hash. -/
theorem success_verified (env : Env) (dir : Bytes) (files : Files) (s : TcpSocket)
    (ho : s.isOpen = true) (hcode : (Prog.run env.exec (receiver dir s) (boot files)).1.1.code = 0) :
    ∃ m idxs packet rest c, (receiveFileManifest s).1 = some m ∧
      (Prog.run env.exec (receiver dir s) (boot files)).1.2.sent = s.sent ++
        serializeContinueRequest {
          sessionId := m.sessionId
          totalChunks := m.chunkCount
          missingChunkIndexes := idxs } ∧
      (acceptChunks m idxs (receiveFileManifest s).2.incoming).failed = none ∧
      (acceptChunks m idxs (receiveFileManifest s).2.incoming).rest =
        serializeHashPacket packet ++ rest ∧
      packet.sessionId = m.sessionId ∧
      (Prog.run env.exec (receiver dir s) (boot files)).2.files (outputPathFor dir m) = some c ∧
      sha256File c = packet.sha256Hex := by
  cases hreceived : (receiveFileManifest s).1 with
  | none =>
    rw [run_receiver_rejected env dir files s hreceived] at hcode
    cases hcode
  | some m =>
    obtain ⟨henc, hopen, hreceiver⟩ := receiver_of_received dir s ho m hreceived
    have hquiet : (receiveFileManifest s).2.sent = s.sent := by
      obtain ⟨k, hk⟩ := receiveFileManifest_reads s ho
      rw [hk, TcpSocket.skip_sent]
    rw [hreceiver] at hcode ⊢
    obtain ⟨idxs, hsent, packet, c, hfailed, hpacket, hsession, hc, hhash⟩ :=
      receiverSession_verified henc.planned dir (receiveFileManifest s).2 hopen (boot files) hcode
    obtain ⟨frame, ⟨rest, hrest⟩, hdecode⟩ := (hashPacket_codec.parse_eq_some_iff _ _).mp hpacket
    obtain ⟨-, rfl⟩ := hashPacket_codec.accepted _ _ hdecode
    rw [hquiet] at hsent
    exact ⟨m, idxs, packet, rest, c, rfl, hsent, hfailed, hrest.symm, hsession, hc, hhash⟩

/-- A file of three bytes, received into an empty directory. -/
theorem success_verified_abc :
    ∃ b m idxs packet rest c, (receiveFileManifest b).1 = some m ∧
      (Prog.run Env.direct.exec (receiver (ascii "in") b) (boot emptyDirectory)).1.2.sent =
        b.sent ++ serializeContinueRequest {
          sessionId := m.sessionId
          totalChunks := m.chunkCount
          missingChunkIndexes := idxs } ∧
      (acceptChunks m idxs (receiveFileManifest b).2.incoming).failed = none ∧
      (acceptChunks m idxs (receiveFileManifest b).2.incoming).rest =
        serializeHashPacket packet ++ rest ∧
      packet.sessionId = m.sessionId ∧
      (Prog.run Env.direct.exec (receiver (ascii "in") b) (boot emptyDirectory)).2.files
        (outputPathFor (ascii "in") m) = some c ∧ sha256File c = packet.sha256Hex := by
  have hc : Sendable (ascii "abc") := by decide
  have hlimit : (senderManifest (ascii "dir/a.txt") (ascii "abc")).chunkCount.toNat ≤ 1000000 := by
    decide
  obtain ⟨a, b, hu⟩ := uncutRun_exists Env.direct_reliable (ascii "in") emptyDirectory
    (ascii "dir/a.txt") hc (by decide) (requestedChunks_le_limit hlimit)
  have hcode := (hu.completes hlimit (Trusted.of_none rfl)).1
  exact ⟨b, success_verified Env.direct (ascii "in") emptyDirectory b hu.openReceiver hcode⟩

section Honest

variable {content : Bytes}

/-- No hash packet begins where a chunk header does. -/
theorem hashPacket_ne_chunk (packet : HashPacket) (hhex : isSha256Hex packet.sha256Hex = true)
    (header : ChunkHeader) (rest later : Bytes) :
    serializeHashPacket packet ++ rest ≠ serializeChunkHeader header ++ later := by
  intro heq
  have htake := congrArg (List.take 4) heq
  rw [serializeHashPacket_eq packet hhex, serializeChunkHeader_eq] at htake
  simp only [List.append_assoc, List.take_left' (length_toBE 4 _)] at htake
  have hmagic := congrArg (fun bs => UInt32.ofNat (ofBE bs)) htake
  simp only [u32_ofBE_toBE] at hmagic
  exact absurd hmagic (by decide)

theorem parseChunkHeader_hashPacket {packet : HashPacket}
    (hhex : isSha256Hex packet.sha256Hex = true) {bs : Bytes}
    (hp : bs <+: serializeHashPacket packet) : (parseChunkHeader bs).1 = none := by
  by_contra hgot
  obtain ⟨header, hgot⟩ := Option.ne_none_iff_exists'.mp hgot
  obtain ⟨front, ⟨later, rfl⟩, hdecode⟩ := (chunkHeader_codec.parse_eq_some_iff bs header).mp hgot
  obtain ⟨-, rfl⟩ := chunkHeader_codec.accepted front header hdecode
  obtain ⟨t, ht⟩ := hp
  apply hashPacket_ne_chunk packet hhex header [] (later ++ t)
  rw [List.append_nil, ← ht, List.append_assoc]

/-- A chunk taken from the stream of a sender was the next one there, and what is left of the stream
follows it. -/
theorem taken_next (hm : m.Planned) (hsize : m.fileSize.toNat = content.length) {j : UInt64}
    {js : List UInt64} {bs tail : Bytes} (hp : bs <+: chunkStream m content (j :: js) ++ tail)
    {header : ChunkHeader} {n : ℕ} (hparse : parseChunkHeader bs = (some header, n))
    (hvalid : validateChunkHeader m header = true)
    (hlong : n+header.payloadSize.toNat ≤ bs.length) :
    bs.drop (n+header.payloadSize.toNat) <+: chunkStream m content js ++ tail := by
  rw [chunkStream_cons_append] at hp
  have hgot : (parseChunkHeader bs).1 = some header := by rw [hparse]
  have hsent := parseChunkHeader_append (chunkHeaderFor m j)
    (fileChunk m content j ++ (chunkStream m content js ++ tail))
  rw [← length_serializeChunkHeader (chunkHeaderFor m j)] at hsent
  obtain ⟨rfl, hn, -⟩ := parseChunkHeader_settles.whole hp hgot hsent
  rw [hparse] at hn
  obtain rfl : n = (serializeChunkHeader (chunkHeaderFor m j)).length := hn
  obtain ⟨hj, -, hpay, -⟩ := (validateChunkHeader_iff hm _).mp hvalid
  have hlen : (chunkHeaderFor m j).payloadSize.toNat = (fileChunk m content j).length := by
    exact hpay.trans (length_fileChunk hm hsize hj).symm
  obtain ⟨t, ht⟩ := hp
  refine ⟨t, ?_⟩
  rw [← List.drop_append_of_le_length hlong, ht, hlen, ← List.drop_drop, List.drop_left,
    List.drop_left]

/-- Behind the chunks taken from such a stream is the beginning of what the sender still sends. -/
theorem acceptChunks_left (hm : m.Planned) (hsize : m.fileSize.toNat = content.length)
    {announced : HashPacket} (hhex : isSha256Hex announced.sha256Hex = true)
    (expected idxs : List UInt64) (bs : Bytes)
    (hp : bs <+: chunkStream m content idxs ++ serializeHashPacket announced)
    (h : (acceptChunks m expected bs).failed = none) :
    ∃ left, (acceptChunks m expected bs).rest <+:
      chunkStream m content left ++ serializeHashPacket announced := by
  induction expected generalizing idxs bs with
  | nil => exact ⟨idxs, hp⟩
  | cons i is ih =>
    cases hparse : parseChunkHeader bs with
    | mk got n =>
      cases got with
      | none =>
        simp only [acceptChunks, hparse] at h
        cases h
      | some header =>
        cases idxs with
        | nil =>
          -- there is no chunk left in the stream
          have hnone := parseChunkHeader_hashPacket hhex hp
          rw [hparse] at hnone
          cases hnone
        | cons j js =>
          simp only [acceptChunks, hparse] at h ⊢
          split_ifs at h ⊢ with hbad hshort hfar
          rw [not_or, Bool.not_eq_false] at hbad
          rw [not_lt] at hshort
          exact ih js _ (taken_next hm hsize hp hparse hbad.2 hshort) h

/-- A hash packet taken from such a stream is the one the sender announces. -/
theorem hashPacket_announced {announced : HashPacket}
    (hhex : isSha256Hex announced.sha256Hex = true) {idxs : List UInt64} {bs : Bytes}
    (hp : bs <+: chunkStream m content idxs ++ serializeHashPacket announced) {packet : HashPacket}
    (h : (parseHashPacket bs).1 = some packet) : packet = announced := by
  cases idxs with
  | nil =>
    have hwhole := parseHashPacket_append announced hhex []
    rw [← length_serializeHashPacket announced hhex] at hwhole
    exact (parseHashPacket_settles.whole (by rwa [List.append_nil]) h hwhole).1
  | cons j js =>
    obtain ⟨frame, ⟨rest, rfl⟩, hdecode⟩ := (hashPacket_codec.parse_eq_some_iff bs packet).mp h
    obtain ⟨hgot, rfl⟩ := hashPacket_codec.accepted frame packet hdecode
    obtain ⟨t, ht⟩ := hp
    rw [chunkStream_cons_append, List.append_assoc] at ht
    exact absurd ht (hashPacket_ne_chunk packet hgot _ _ _)

/-- A run that reports success against the stream of a sender leaves an output with the hash that the
sender announces. -/
theorem announced_integrity (env : Env) (dir : Bytes) (files : Files) (hm : m.Encodable)
    (hd : m.withoutDigest = m) (hsize : m.fileSize.toNat = content.length)
    {announced : HashPacket} (hhex : isSha256Hex announced.sha256Hex = true) (idxs : List UInt64)
    (b : TcpSocket) (hbo : b.isOpen = true)
    (hin : b.incoming <+: serializeFileManifest m ++
      (chunkStream m content idxs ++ serializeHashPacket announced))
    (hcode : (Prog.run env.exec (receiver dir b) (boot files)).1.1.code = 0) :
    ∃ c, (Prog.run env.exec (receiver dir b) (boot files)).2.files (outputPathFor dir m) = some c ∧
      sha256File c = announced.sha256Hex := by
  cases hreceived : (receiveFileManifest b).1 with
  | none =>
    rw [run_receiver_rejected env dir files b hreceived] at hcode
    cases hcode
  | some m' =>
    obtain ⟨rfl, hrest⟩ := received_honest hm hd b hbo _ hin m' hreceived
    obtain ⟨-, hopen, hreceiver⟩ := receiver_of_received dir b hbo _ hreceived
    rw [hreceiver] at hcode ⊢
    obtain ⟨expected, -, packet, c, hfailed, hpacket, -, hout, hhash⟩ :=
      receiverSession_verified hm.planned dir (receiveFileManifest b).2 hopen (boot files) hcode
    obtain ⟨left, hleft⟩ := acceptChunks_left hm.planned hsize hhex expected idxs _ hrest hfailed
    rw [hashPacket_announced hhex hleft hpacket] at hhash
    exact ⟨c, hout, hhash⟩

/-- Whatever fails on the system of the receiver, and whatever its directory holds: when it reports
success to an honest sender, over a connection cut anywhere, the output on the disk has the hash of
the sender's file. -/
theorem success_integrity (env : Env) (dir filePath : Bytes) (files : Files)
    (hc : Sendable content)
    (hn : (senderManifest filePath content).filename.length ≤ kMaxFilenameLength) (a b : TcpSocket)
    (hao : a.isOpen = true) (hbo : b.isOpen = true) (hsent : a.sent = [])
    (hin : b.incoming <+: (sender filePath content a).2.sent)
    (hcode : (Prog.run env.exec (receiver dir b) (boot files)).1.1.code = 0) :
    ∃ c, (Prog.run env.exec (receiver dir b) (boot files)).2.files
        (outputPathFor dir (senderManifest filePath content)) = some c ∧
      sha256File c = sha256File content := by
  obtain ⟨idxs, part, hpart, hfront⟩ := sender_sends filePath hc hn a hao
  rw [hpart, hsent, List.nil_append] at hin
  exact announced_integrity env dir files (senderManifest_encodable filePath content hn)
    (withoutDigest_senderManifest _ _) hc.fileSize_toNat (isSha256Hex_sha256File content) idxs b hbo
    (hin.trans hfront) hcode

theorem success_integrity_abc :
    ∃ b c, (Prog.run Env.direct.exec (receiver (ascii "in") b) (boot emptyDirectory)).1.1.code = 0 ∧
      (Prog.run Env.direct.exec (receiver (ascii "in") b) (boot emptyDirectory)).2.files
        (ascii "in/received_a.txt") = some c ∧ sha256File c = sha256File (ascii "abc") := by
  have hc : Sendable (ascii "abc") := by decide
  have hlimit : (senderManifest (ascii "dir/a.txt") (ascii "abc")).chunkCount.toNat ≤ 1000000 := by
    decide
  obtain ⟨a, b, hu⟩ := uncutRun_exists Env.direct_reliable (ascii "in") emptyDirectory
    (ascii "dir/a.txt") hc (by decide) (requestedChunks_le_limit hlimit)
  have hcode := (hu.completes hlimit (Trusted.of_none rfl)).1
  obtain ⟨c, hout, hhash⟩ := success_integrity Env.direct (ascii "in") (ascii "dir/a.txt")
    emptyDirectory hc (by decide) a b hu.openSender hu.openReceiver hu.sentNothing.1 hu.toReceiver
    hcode
  exact ⟨b, c, hcode, hout, hhash⟩

end Honest

/-- Loading the checkpoint looks at whether the output exists, and at the checkpoint file. -/
theorem loadedCheckpoint_congr (env : Env) (m : FileManifest) (out : Bytes) {files files' : Files}
    (hout : (files out).isSome = (files' out).isSome)
    (hckpt : files (checkpointPathForOutput out) = files' (checkpointPathForOutput out)) :
    (Prog.run env.exec (loadedCheckpoint out (checkpointPathForOutput out) m) (boot files)).1 =
      (Prog.run env.exec (loadedCheckpoint out (checkpointPathForOutput out) m)
        (boot files')).1 := by
  have hexists (files : Files) : Prog.run env.exec (fileExists out) (boot files) =
      ((if env.fault 0 (.read out) = none then (files out).isSome else false),
        (boot files).log (.read out)) := by
    rw [fileExists, call, Prog.run_bind, Prog.run_perform, Env.exec, FileOp.effect, Prog.run_pure]
    split
    · rename_i h
      rw [World.boot_history, List.length_nil] at h
      rw [if_pos h]
      rfl
    · rename_i h
      rw [World.boot_history, List.length_nil] at h
      rw [if_neg h]
      rfl
  have hload (files : Files) : (Prog.run env.exec (loadCheckpoint (checkpointPathForOutput out))
      ((boot files).log (.read out))).1 =
        (if env.fault 1 (.read (checkpointPathForOutput out)) = none then
          files (checkpointPathForOutput out) else none).bind parseCheckpoint := rfl
  simp only [loadedCheckpoint, Prog.run_bind, hexists, hout, Prog.run_ite, apply_ite Prod.fst,
    Prog.run_pure, hload, hckpt]

/-- What the receiver sends says nothing about any file but its checkpoint, beyond whether the output
is there: two directories that agree on these cannot be told apart at the other end, whatever
arrives and whatever fails. -/
theorem receiver_reveals (env : Env) (dir : Bytes) (files files' : Files) (s : TcpSocket)
    (ho : s.isOpen = true)
    (hout : ∀ m, (receiveFileManifest s).1 = some m →
      (files (outputPathFor dir m)).isSome = (files' (outputPathFor dir m)).isSome)
    (hckpt : ∀ m, (receiveFileManifest s).1 = some m →
      files (checkpointPathForOutput (outputPathFor dir m)) =
        files' (checkpointPathForOutput (outputPathFor dir m))) :
    (Prog.run env.exec (receiver dir s) (boot files)).1.2.sent =
      (Prog.run env.exec (receiver dir s) (boot files')).1.2.sent := by
  cases hreceived : (receiveFileManifest s).1 with
  | none => rw [run_receiver_rejected env dir files s hreceived,
      run_receiver_rejected env dir files' s hreceived]
  | some m =>
    obtain ⟨henc, hopen, hreceiver⟩ := receiver_of_received dir s ho m hreceived
    have hload := loadedCheckpoint_congr env m (outputPathFor dir m) (hout m hreceived)
      (hckpt m hreceived)
    have hsent (files : Files) := (@continueSession_ensures env m (outputPathFor dir m)
      henc.planned (receiveFileManifest s).2 hopen
      (Prog.run env.exec (loadedCheckpoint (outputPathFor dir m)
        (checkpointPathForOutput (outputPathFor dir m)) m) (boot files)).1
      (Prog.run env.exec (loadedCheckpoint (outputPathFor dir m)
        (checkpointPathForOutput (outputPathFor dir m)) m) (boot files)).2).1
    rw [hreceiver, receiverSession_eq, Prog.run_bind, Prog.run_bind]
    rw [hsent files, hsent files', hload]

def oneByteOutput : Files :=
  Function.update emptyDirectory (outputPathFor (ascii "in") (senderManifest (ascii "a") [1]))
    (some [7])

theorem receiver_reveals_length :
    (Prog.run Env.direct.exec (receiver (ascii "in") byteManifestOnly)
      (boot twoByteOutput)).1.2.sent =
    (Prog.run Env.direct.exec (receiver (ascii "in") byteManifestOnly)
      (boot oneByteOutput)).1.2.sent := by
  have hreceived : (receiveFileManifest byteManifestOnly).1 =
      some (senderManifest (ascii "a") [1]) := by decide +kernel
  apply receiver_reveals Env.direct (ascii "in") twoByteOutput oneByteOutput byteManifestOnly rfl
  · intro m hm
    rw [hreceived] at hm
    obtain rfl := Option.some.inj hm
    rw [twoByteOutput, oneByteOutput, Function.update_self, Function.update_self]
    rfl
  · intro m hm
    rw [hreceived] at hm
    obtain rfl := Option.some.inj hm
    rw [twoByteOutput, oneByteOutput, Function.update_of_ne (checkpointPath_ne _),
      Function.update_of_ne (checkpointPath_ne _)]

end PacketBridge
