import PacketBridge.CheckpointCut
import PacketBridge.CheckpointCrash
import PacketBridge.ReceiverRun

/-! Runs of the receiver on one manifest where any save may leave only a prefix of its text: what a
checkpoint found on the disk still says about the output. -/
namespace PacketBridge
open Foundations

def InitialSegment (chunks : AscSet UInt64) : Prop := ∃ n : ℕ, ∀ i, i ∈ chunks ↔ i.toNat < n

/-- A chunk of the plan is among some writes, at its place and in its full length. -/
def ChunkWritten (m : FileManifest) (written : List (ℕ × Bytes)) (i : UInt64) : Prop :=
  ∃ payload, payload.length = m.chunkLength i ∧ (m.chunkOffset i, payload) ∈ written

/-- The writes to an output since it was last truncated, after one more run. A run truncates its
output before it writes to it. -/
def writtenAfter (out : Bytes) (written : List (ℕ × Bytes)) (w : World) : List (ℕ × Bytes) :=
  if .openTrunc out ∈ w.history then w.writesTo out else written ++ w.writesTo out

/-- The files and the writes since the last truncation that runs on the manifest `m` can come to,
from a directory without its checkpoint. In each run saves may be cut short, the rest of the
system works, and the connection carries any bytes behind the manifest. -/
inductive TornRuns (dir : Bytes) (m : FileManifest) : Files → List (ℕ × Bytes) → Prop where
  | start (files : Files) (h : files (checkpointPathForOutput (outputPathFor dir m)) = none) :
    TornRuns dir m files []
  | run {files : Files} {written : List (ℕ × Bytes)} (before : TornRuns dir m files written)
    (env : Env) (ht : env.Torn (checkpointPathForOutput (outputPathFor dir m))) (s : TcpSocket)
    (ho : s.isOpen = true) (hm : (receiveFileManifest s).1 = some m) :
    TornRuns dir m (Prog.run env.exec (receiver dir s) (boot files)).2.files
      (writtenAfter (outputPathFor dir m) written
        (Prog.run env.exec (receiver dir s) (boot files)).2)

/-- What every such run keeps: the file at the checkpoint path is a prefix of the text of a
checkpoint whose chunks are an initial segment and have all been written. -/
def TornInvariant (m : FileManifest) (ckpt : Bytes) (files : Files) (written : List (ℕ × Bytes)) :
    Prop :=
  files ckpt = none ∨ ∃ text cp, files ckpt = some text ∧ text <+: checkpointText cp ∧
    cp.originalFilename = m.filename ∧ InitialSegment cp.completedChunks ∧
    ∀ i ∈ cp.completedChunks, ChunkWritten m written i

/-- A prefix of a text that loads lists an initial segment again, and no chunk the text does not
list. -/
theorem initialSegment_of_prefix {cp read : TransferCheckpoint} {text : Bytes}
    (hn : newline ∉ cp.originalFilename) (hp : text <+: checkpointText cp)
    (hi : InitialSegment cp.completedChunks) (h : parseCheckpoint text = some read) :
    InitialSegment read.completedChunks ∧
      ∀ i ∈ read.completedChunks, i ∈ cp.completedChunks := by
  obtain ⟨n, hi⟩ := hi
  rw [List.prefix_iff_eq_take.mp hp, parseCheckpoint_take cp hn] at h
  split at h
  · cases h
  simp only [Option.bind_eq_some_iff, Option.map_eq_some_iff] at h
  obtain ⟨fs, -, cs, -, cc, -, chunks, hchunks, rfl⟩ := h
  by_cases hj : text.length-completedStart cp < (completedText true cp.completedChunks.toList).length
  · obtain ⟨x, hx, chunks', hread, hbelow, hall⟩ := parseCompletedChunks_take _ _ hj
    rw [hchunks, Option.some.injEq] at hread
    subst hread
    have hxn := (hi x).mp hx
    have hmem (i : UInt64) : i ∈ chunks ↔ i.toNat < x.toNat := by
      rw [← UInt64.lt_iff_toNat_lt]
      refine ⟨hbelow i, fun hlt => hall i ((hi i).mpr ?_) hlt⟩
      exact (UInt64.lt_iff_toNat_lt.mp hlt).trans hxn
    refine ⟨⟨x.toNat, hmem⟩, fun i hc => (hi i).mpr ?_⟩
    exact ((hmem i).mp hc).trans hxn
  · rw [List.take_of_length_le (not_lt.mp hj), parseCompletedChunks_completedText,
      Option.some.injEq] at hchunks
    subst hchunks
    exact ⟨⟨n, hi⟩, fun i hc => hc⟩

/-- So the invariant says of every checkpoint that loads and matches what is wanted. -/
theorem TornInvariant.loaded {m : FileManifest} {ckpt : Bytes} {files : Files}
    {written : List (ℕ × Bytes)} (h : TornInvariant m ckpt files written) {text : Bytes}
    {cp : TransferCheckpoint} (hf : files ckpt = some text) (hp : parseCheckpoint text = some cp)
    (hm : checkpointMatchesManifest cp m = true) :
    InitialSegment cp.completedChunks ∧ ∀ i ∈ cp.completedChunks, ChunkWritten m written i := by
  have hname := ((checkpointMatchesManifest_iff cp m).mp hm).1
  have hnl := parseCheckpoint_no_newline text cp hp
  rcases h with hnone | ⟨text', cp', hf', hprefix, hname', hinit, hwritten⟩
  · rw [hf] at hnone
    cases hnone
  · obtain rfl := Option.some.inj (hf.symm.trans hf')
    -- a name with a line break never matches, so the text had none in it
    rw [hname, ← hname'] at hnl
    obtain ⟨hseg, hsub⟩ := initialSegment_of_prefix hnl hprefix hinit hp
    exact ⟨hseg, fun i hi => hwritten i (hsub i hi)⟩

/-- Taking chunks from the front of the missing list makes an initial segment longer. -/
theorem initialSegment_withChunks {m : FileManifest} {cp : TransferCheckpoint}
    (hm : checkpointMatchesManifest cp m = true) (hi : InitialSegment cp.completedChunks)
    {taken : List UInt64} (ht : taken <+: missingChunks cp) :
    InitialSegment (cp.withChunks taken).completedChunks := by
  obtain ⟨n, hi⟩ := hi
  obtain ⟨-, -, -, hcount, hrange⟩ := (checkpointMatchesManifest_iff cp m).mp hm
  obtain ⟨later, hlist⟩ := ht
  have hmissing (i : UInt64) : i ∈ taken ∨ i ∈ later ↔ i < m.chunkCount ∧ ¬ i.toNat < n := by
    rw [← List.mem_append, hlist, mem_missingChunks, hcount, hi]
  have hasc := missingChunks_ascending cp
  rw [← hlist] at hasc
  simp only [InitialSegment, mem_withChunks, hi]
  cases later with
  | nil =>
    -- everything that was missing is taken
    refine ⟨m.chunkCount.toNat, fun i => ?_⟩
    have hin := hmissing i
    have hlow := hrange i
    rw [hi] at hlow
    simp only [List.not_mem_nil, or_false] at hin
    rw [hin, ← UInt64.lt_iff_toNat_lt]
    tauto
  | cons x later =>
    rw [List.pairwise_append, List.pairwise_cons] at hasc
    obtain ⟨-, ⟨hafter, -⟩, hbefore⟩ := hasc
    have hx := (hmissing x).mp (Or.inr List.mem_cons_self)
    refine ⟨x.toNat, fun i => ?_⟩
    rw [← UInt64.lt_iff_toNat_lt]
    constructor
    · rintro (hin | hlow)
      · exact hbefore i hin x List.mem_cons_self
      · rw [UInt64.lt_iff_toNat_lt]
        omega
    · intro hlt
      by_cases hlow : i.toNat < n
      · exact Or.inr hlow
      · rcases (hmissing i).mpr ⟨hlt.trans hx.1, hlow⟩ with hin | hin
        · exact Or.inl hin
        · rcases List.mem_cons.mp hin with rfl | hin
          · exact absurd hlt (lt_irrefl i)
          · exact absurd (hlt.trans (hafter i hin)) (lt_irrefl i)

theorem TornInvariant.run {dir : Bytes} {m : FileManifest} (hplan : m.Planned) {files : Files}
    {written : List (ℕ × Bytes)}
    (h : TornInvariant m (checkpointPathForOutput (outputPathFor dir m)) files written) {env : Env}
    (ht : env.Torn (checkpointPathForOutput (outputPathFor dir m))) (s : TcpSocket)
    (ho : s.isOpen = true) :
    TornInvariant m (checkpointPathForOutput (outputPathFor dir m))
      (Prog.run env.exec (receiverSession dir m s) (boot files)).2.files
      (writtenAfter (outputPathFor dir m) written
        (Prog.run env.exec (receiverSession dir m s) (boot files)).2) := by
  obtain ⟨exit, s', w, n, hrun, -, hend⟩ :=
    run_receiverSession hplan dir ht.saveLaw files s ho
  rw [hrun]
  generalize outputPathFor dir m = out at h hend ⊢
  simp only [writtenAfter]
  rcases hend with ⟨-, hfiles, hwrites, -, hkept⟩ | ⟨hend, -⟩
  · -- the request was not sent
    rw [if_neg hkept, hfiles, World.writesTo, hwrites, List.filter_nil, List.map_nil,
      List.append_nil]
    exact h
  · have hmatch := startingCheckpoint_matches files m out
    have hprefix := acceptChunks_prefix m (requestedChunks files m out) s.incoming
    have hplanned := acceptChunks_planned hplan (requestedChunks files m out) s.incoming
    -- the chunks the run starts from are written, in what it kept of the output
    have hstart : InitialSegment (startingCheckpoint files m out).completedChunks ∧
        ∀ i ∈ (startingCheckpoint files m out).completedChunks,
          ChunkWritten m (if .openTrunc out ∈ w.history then [] else written) i := by
      cases hres : resumed files m out with
      | none =>
        have hfresh : startingCheckpoint files m out = createCheckpointFromManifest m := by
          rw [startingCheckpoint, hres]
          rfl
        rw [hfresh]
        exact ⟨⟨0, fun i => iff_of_false (AscSet.not_mem_empty i) (Nat.not_lt_zero _)⟩,
          fun i hi => absurd hi (AscSet.not_mem_empty i)⟩
      | some cp =>
        have hresumed : startingCheckpoint files m out = cp := by
          rw [startingCheckpoint, hres]
          rfl
        obtain ⟨-, ⟨text, hf, hp⟩, hm⟩ := resumed_eq_some.mp hres
        rw [hresumed, if_neg (by rw [hend.truncated, hres]; exact Option.some_ne_none cp)]
        exact h.loaded hf hp hm
    by_cases hcode : exit.code = 0
    · exact Or.inl (hend.removed hcode)
    · obtain ⟨text, hf, hp⟩ := hend.checkpoint hcode
      refine Or.inr ⟨text, _, hf, hp, ((checkpointMatchesManifest_iff _ m).mp hmatch).1,
        initialSegment_withChunks hmatch hstart.1 hprefix, fun i hi => ?_⟩
      have hall : (if .openTrunc out ∈ w.history then w.writesTo out
          else written ++ w.writesTo out) =
          (if .openTrunc out ∈ w.history then [] else written) ++ w.writesTo out := by
        split <;> rfl
      rw [hall]
      rcases (mem_withChunks _ _ i).mp hi with hin | hin
      · -- taken in this run
        obtain ⟨⟨i', payload⟩, hx, rfl⟩ := List.mem_map.mp hin
        refine ⟨payload, (hplanned _ hx).2, List.mem_append_right _ ?_⟩
        rw [hend.writes]
        exact List.mem_map.mpr ⟨(i', payload), hx, rfl⟩
      · obtain ⟨payload, hlen, hmem⟩ := hstart.2 i hin
        exact ⟨payload, hlen, List.mem_append_left _ hmem⟩

/-- Whatever a save has left at the checkpoint path, a checkpoint that loads and matches lists an
initial segment of the chunks, and all of these have been written since the output was truncated. -/
theorem torn_checkpoint_sound (dir : Bytes) (m : FileManifest)
    (hm : ∃ frame, deserializeFileManifest frame = .ok m) (files : Files)
    (written : List (ℕ × Bytes)) (h : TornRuns dir m files written) (cp : TransferCheckpoint)
    (hload : reloaded files (checkpointPathForOutput (outputPathFor dir m)) = some cp)
    (hmatch : checkpointMatchesManifest cp m = true) :
    ∃ j : ℕ, (∀ i, i ∈ cp.completedChunks ↔ i.toNat < j) ∧
      ∀ i : UInt64, i.toNat < j → ChunkWritten m written i := by
  obtain ⟨frame, hframe⟩ := hm
  have hplan := (encodable_of_accepted frame m hframe).1.planned
  have hinv : TornInvariant m (checkpointPathForOutput (outputPathFor dir m)) files written := by
    clear hload
    induction h with
    | start files h => exact Or.inl h
    | run before env ht s ho hmanifest ih =>
      obtain ⟨k, hk⟩ := receiveFileManifest_reads s ho
      have hreceiver : receiver dir s =
          receiverSession dir m (s.skip (parseFileManifest s.incoming).2 k) := by
        rw [hk] at hmanifest
        rw [receiver, hk]
        simp only at hmanifest
        rw [hmanifest]
      rw [hreceiver]
      exact ih.run hplan ht _ (by rwa [TcpSocket.skip_isOpen])
  rw [reloaded_eq] at hload
  obtain ⟨text, hf, hp⟩ := Option.bind_eq_some_iff.mp hload
  obtain ⟨⟨j, hj⟩, hwritten⟩ := hinv.loaded hf hp hmatch
  exact ⟨j, hj, fun i hi => hwritten i ((hj i).mpr hi)⟩

def manifestOnly : TcpSocket := { incoming := serializeFileManifest smallManifest }

def emptyDirectory : Files := fun _ => none

theorem manifestOnly_received : (receiveFileManifest manifestOnly).1 = some smallManifest := by
  obtain ⟨k, hk⟩ := receive_serializeFileManifest smallManifest smallManifest_encodable
    manifestOnly rfl [] (List.append_nil _).symm
  rw [hk]
  rfl

def firstChunkOnly : TcpSocket :=
  { incoming := serializeFileManifest smallManifest ++
      (serializeChunkHeader { chunkIndex := 0, byteOffset := 0, payloadSize := 2 } ++ [7, 7]) }

theorem firstChunkOnly_received :
    (receiveFileManifest firstChunkOnly).1 = some smallManifest := by
  decide +kernel

/-- The first chunk is received on a disk that is full one byte before the end of its checkpoint: the
chunk is listed, and it has been written. -/
theorem torn_checkpoint_sound_first :
    let ckpt := checkpointPathForOutput (outputPathFor (ascii "in") smallManifest)
    let run := Prog.run (Env.diskFull ckpt 88).exec (receiver (ascii "in") firstChunkOnly)
      (boot emptyDirectory)
    run.2.files ckpt = some ((checkpointText
        ((createCheckpointFromManifest smallManifest).withChunks [0])).take 88) ∧
      ChunkWritten smallManifest
        (writtenAfter (outputPathFor (ascii "in") smallManifest) [] run.2) 0 := by
  intro ckpt run
  have htext : run.2.files ckpt = some ((checkpointText
      ((createCheckpointFromManifest smallManifest).withChunks [0])).take 88) := by
    decide +kernel
  have hruns : TornRuns (ascii "in") smallManifest run.2.files
      (writtenAfter (outputPathFor (ascii "in") smallManifest) [] run.2) :=
    .run (.start emptyDirectory rfl) (Env.diskFull ckpt 88) (Env.diskFull_torn ckpt 88)
      firstChunkOnly rfl firstChunkOnly_received
  have hload : reloaded run.2.files ckpt =
      some ((createCheckpointFromManifest smallManifest).withChunks [0]) := by
    rw [reloaded_eq, htext]
    decide +kernel
  obtain ⟨j, hj, hwritten⟩ := torn_checkpoint_sound (ascii "in") smallManifest
    ⟨_, deserialize_serializeFileManifest smallManifest smallManifest_encodable⟩ _ _ hruns _ hload
    (by decide +kernel)
  refine ⟨htext, hwritten 0 ((hj 0).mp ?_)⟩
  rw [mem_withChunks]
  exact Or.inl List.mem_cons_self

end PacketBridge
