import PacketBridge.CheckpointFile
import PacketBridge.ChunkPlan
import PacketBridge.ContinuationCodec

namespace PacketBridge
open Foundations

def FileManifest.Accepted (m : FileManifest) : Prop :=
  ∃ frame, deserializeFileManifest frame = .ok m

theorem FileManifest.Accepted.encodable {m : FileManifest} (h : m.Accepted) : m.Encodable :=
  h.elim fun frame hf => (encodable_of_accepted frame m hf).1

theorem FileManifest.Encodable.accepted {m : FileManifest} (h : m.Encodable) :
    m.withoutDigest.Accepted :=
  ⟨serializeFileManifest m, deserialize_serializeFileManifest m h⟩

def SameTransfer (m1 m2 : FileManifest) : Prop :=
  m1.filename = m2.filename ∧ m1.fileSize = m2.fileSize ∧ m1.chunkSize = m2.chunkSize ∧
    m1.chunkCount = m2.chunkCount

def checkpointWith (m : FileManifest) (completed : AscSet UInt64) : TransferCheckpoint :=
  { createCheckpointFromManifest m with completedChunks := completed }

/-- What saving the checkpoint of `m1` and loading it should come to for a receiver of `m2`. -/
def RecognisedFor (m1 m2 : FileManifest) (completed : AscSet UInt64)
    (result : Bool × Option TransferCheckpoint) : Prop :=
  ∃ loaded, result = (true, some loaded) ∧
    (checkpointMatchesManifest loaded m2 = true ↔ SameTransfer m1 m2) ∧
    (checkpointMatchesManifest loaded m2 = true → loaded.completedChunks = completed)

theorem checkpointWith_matches_iff (m1 m2 : FileManifest) (completed : AscSet UInt64)
    (hc : ∀ i ∈ completed, i < m1.chunkCount) :
    checkpointMatchesManifest (checkpointWith m1 completed) m2 = true ↔ SameTransfer m1 m2 := by
  rw [checkpointMatchesManifest_iff]
  constructor
  · rintro ⟨hn, hf, hcs, hcc, -⟩
    exact ⟨hn, hf, hcs, hcc⟩
  · rintro ⟨hn, hf, hcs, hcc⟩
    exact ⟨hn, hf, hcs, hcc, fun i hi => hcc ▸ hc i hi⟩

/-- A saved checkpoint is recognised for its own transfer and no other exactly when the announced
file name has no line break. -/
theorem saved_recognised_iff {env : Env} (hr : env.Reliable) (path : Bytes) (w : World)
    (m1 : FileManifest) (h1 : m1.Accepted) (completed : AscSet UInt64)
    (hc : ∀ i ∈ completed, i < m1.chunkCount) :
    (∀ m2 : FileManifest, m2.Accepted → RecognisedFor m1 m2 completed
      (Prog.run env.exec (saveAndLoad path (checkpointWith m1 completed)) w).1) ↔
      newline ∉ m1.filename := by
  rw [run_saveAndLoad hr]
  constructor
  · intro h
    obtain ⟨loaded, heq, hmatch, -⟩ := h m1 h1
    have hname := parseCheckpoint_no_newline _ loaded (Prod.mk.inj heq).2
    obtain ⟨hn, -⟩ := (checkpointMatchesManifest_iff loaded m1).mp
      (hmatch.mpr ⟨rfl, rfl, rfl, rfl⟩)
    rwa [hn] at hname
  · intro hn m2 _
    refine ⟨checkpointWith m1 completed, ?_, checkpointWith_matches_iff m1 m2 completed hc,
      fun _ => rfl⟩
    rw [parseCheckpoint_of_no_newline (checkpointWith m1 completed) hn]

/-- A name that goes on with a line of its own. -/
def forgingManifest : FileManifest :=
  { filename := ascii "a\nfilename=b", fileSize := 1, chunkCount := 1 }

def forgedManifest : FileManifest := { filename := ascii "b", fileSize := 1, chunkCount := 1 }

theorem saved_recognised_iff_plain :
    RecognisedFor forgedManifest forgedManifest (AscSet.insertAll [0] ∅)
      (Prog.run Env.direct.exec (saveAndLoad (ascii "received_b.pbcheckpoint")
        (checkpointWith forgedManifest (AscSet.insertAll [0] ∅))) (boot fun _ => none)).1 := by
  have henc : forgedManifest.Encodable := ⟨rfl, by decide, by decide, by decide, by decide⟩
  refine (saved_recognised_iff Env.direct_reliable _ _ forgedManifest henc.accepted _ ?_).mpr
    (by decide) forgedManifest henc.accepted
  intro i hi
  rw [AscSet.mem_insertAll, List.mem_singleton, or_iff_left (AscSet.not_mem_empty i)] at hi
  subst hi
  decide

/-- The checkpoint of the first transfer is taken for that of the second and not for its own. -/
theorem forgingManifest_recognised :
    forgingManifest.Accepted ∧ forgedManifest.Accepted ∧
    ¬ SameTransfer forgingManifest forgedManifest ∧
    ∃ loaded, (Prog.run Env.direct.exec (saveAndLoad (ascii "received_a.pbcheckpoint")
        (checkpointWith forgingManifest (AscSet.insertAll [0] ∅))) (boot fun _ => none)).1 =
        (true, some loaded) ∧
      checkpointMatchesManifest loaded forgedManifest = true ∧
      checkpointMatchesManifest loaded forgingManifest = false := by
  have h1 : forgingManifest.Encodable := ⟨rfl, by decide, by decide, by decide, by decide⟩
  have h2 : forgedManifest.Encodable := ⟨rfl, by decide, by decide, by decide, by decide⟩
  refine ⟨h1.accepted, h2.accepted, fun h => absurd h.1 (by decide),
    checkpointWith forgedManifest (AscSet.insertAll [0] ∅), ?_, by decide, by decide⟩
  rw [run_saveAndLoad Env.direct_reliable, parseCheckpoint_checkpointText]
  rfl

/-- The request the receiver builds from its checkpoint. -/
def requestFor (m : FileManifest) (cp : TransferCheckpoint) : ContinueRequest :=
  { sessionId := m.sessionId
    totalChunks := m.chunkCount
    missingChunkIndexes := missingChunks cp }

/-- The checkpoints a receiver of `m` goes on with. -/
def ResumableWith (m : FileManifest) (cp : TransferCheckpoint) : Prop :=
  cp = createCheckpointFromManifest m ∨ checkpointMatchesManifest cp m = true

theorem ResumableWith.totalChunks {m : FileManifest} {cp : TransferCheckpoint}
    (h : ResumableWith m cp) : cp.totalChunks = m.chunkCount := by
  rcases h with rfl | h
  · rfl
  · exact ((checkpointMatchesManifest_iff cp m).mp h).2.2.2.1

theorem requestFor_validates {m : FileManifest} {cp : TransferCheckpoint}
    (h : ResumableWith m cp) : validateContinueRequest m (requestFor m cp) = true := by
  rw [validateContinueRequest, if_neg (by simp [requestFor]), validateIndexes_iff]
  refine ⟨fun i hi => ?_, fun p hp => ?_, missingChunks_ascending cp⟩
  · rw [← h.totalChunks]
    exact ((mem_missingChunks cp i).mp hi).1
  · cases hp

/-- However the connection cuts it up, the sender takes the receiver's request exactly when it
names at most a million chunks; what it then holds are the missing indexes in ascending order. -/
theorem request_received_iff (m : FileManifest) (cp : TransferCheckpoint)
    (hcp : ResumableWith m cp) (s : TcpSocket) (ho : s.isOpen = true) (rest : Bytes)
    (hin : s.incoming = serializeContinueRequest (requestFor m cp) ++ rest) :
    ((∃ r, (receiveContinueRequest s).1 = some r ∧ validateContinueRequest m r = true) ↔
      (missingChunks cp).length ≤ 1000000) ∧
    ∀ r, (receiveContinueRequest s).1 = some r → validateContinueRequest m r = true ∧
      r.missingChunkIndexes.Pairwise (· < ·) ∧
      ∀ i, i ∈ r.missingChunkIndexes ↔ i < m.chunkCount ∧ i ∉ cp.completedChunks := by
  have hlen : (requestFor m cp).missingChunkIndexes.length < 2^64 :=
    (length_missingChunks_le cp).trans_lt cp.totalChunks.toNat_lt
  have hparse := parseContinueRequest_append (requestFor m cp) rest hlen
  obtain ⟨k, hk⟩ := receiveContinueRequest_reads s ho
  have hreceived : (receiveContinueRequest s).1 =
      if (missingChunks cp).length ≤ 1000000 then some (requestFor m cp) else none := by
    rw [hk, hin, hparse]
    split <;> rename_i h
    · exact (if_pos h).symm
    · exact (if_neg h).symm
  rw [hreceived]
  refine ⟨⟨?_, fun h => ⟨requestFor m cp, if_pos h, requestFor_validates hcp⟩⟩, fun r hr => ?_⟩
  · rintro ⟨r, hr, -⟩
    by_contra h
    rw [if_neg h] at hr
    cases hr
  · split at hr
    · obtain rfl := Option.some.inj hr
      refine ⟨requestFor_validates hcp, missingChunks_ascending cp, fun i => ?_⟩
      rw [← hcp.totalChunks]
      exact mem_missingChunks cp i
    · cases hr

/-- A request for both chunks of a small file. -/
theorem request_received_iff_two :
    let cp := createCheckpointFromManifest smallManifest
    let s : TcpSocket :=
      { incoming := serializeContinueRequest (requestFor smallManifest cp) ++ [] }
    ∃ r, (receiveContinueRequest s).1 = some r ∧ validateContinueRequest smallManifest r = true :=
  (request_received_iff smallManifest _ (Or.inl rfl) _ rfl [] rfl).1.mpr (by decide)

/-- One chunk more than a request may name. -/
def longManifest : FileManifest :=
  { filename := ascii "a", fileSize := 1000001, chunkSize := 1, chunkCount := 1000001 }

theorem length_missingChunks_create (m : FileManifest) :
    (missingChunks (createCheckpointFromManifest m)).length = m.chunkCount.toNat := by
  rw [missingChunks, List.filter_eq_self.mpr, List.length_map, List.length_range]
  · rfl
  · intro i _
    exact decide_eq_true (AscSet.not_mem_empty i)

/-- Its first request is refused however the connection cuts it up. -/
theorem longManifest_refused :
    longManifest.Accepted ∧ ∀ s : TcpSocket, s.isOpen = true →
      s.incoming = serializeContinueRequest
        (requestFor longManifest (createCheckpointFromManifest longManifest)) →
      (receiveContinueRequest s).1 = none := by
  refine ⟨FileManifest.Encodable.accepted (m := longManifest)
    ⟨rfl, by decide, by decide, by decide, by decide⟩, fun s ho hin => ?_⟩
  have hlen : (requestFor longManifest
      (createCheckpointFromManifest longManifest)).missingChunkIndexes.length = 1000001 := by
    rw [requestFor, length_missingChunks_create]
    simp only [longManifest, UInt64.reduceToNat]
  have hparse := parseContinueRequest_append
    (requestFor longManifest (createCheckpointFromManifest longManifest)) [] (by rw [hlen]; decide)
  rw [List.append_nil, hlen, if_neg (by decide)] at hparse
  obtain ⟨k, hk⟩ := receiveContinueRequest_reads s ho
  rw [hk, hin, hparse]

end PacketBridge
