import PacketBridge.Interference
import PacketBridge.StoredChunks
import PacketBridge.TornRuns

namespace PacketBridge
open Foundations

def ReceiverExit.duringTransfer : ReceiverExit → Bool
  | headerNotReceived => true
  | headerInvalid => true
  | payloadNotReceived => true
  | outputNotPrepared _ => true
  | outputNotOpened _ => true
  | writeFailed => true
  | checkpointNotUpdated => true
  | hashNotReceived => true
  | _ => false

theorem ReceiverExit.code_of_duringTransfer (exit : ReceiverExit)
    (h : exit.duringTransfer = true) : exit.code ≠ 0 := by
  cases exit with
  | complete => cases h
  | _ => exact one_ne_zero

/-- The payloads a run on the manifest `m` has received in full and written when it ends at `exit`:
none before its request is out, then those it takes off the stream `bs` behind the manifest. -/
def takenChunks (files : Files) (m : FileManifest) (out bs : Bytes) (exit : ReceiverExit) :
    List (UInt64 × Bytes) :=
  if exit = .requestNotSent then [] else (acceptChunks m (requestedChunks files m out) bs).chunks

/-- What a run on the manifest `m` and the stream `bs` behind it may do to the files. -/
structure SafeRun (dir : Bytes) (m : FileManifest) (files : Files) (bs : Bytes)
    (exit : ReceiverExit) (w : World) : Prop where
  /-- Only the three paths of the transfer change. -/
  paths : ∀ q, q ∉ transferPaths dir m.filename → w.files q = files q
  /-- The chunks taken are those requested first, each once and in ascending order. -/
  order : (takenChunks files m (outputPathFor dir m) bs exit).map Prod.fst <+:
      requestedChunks files m (outputPathFor dir m) ∧
    (requestedChunks files m (outputPathFor dir m)).Pairwise (· < ·)
  /-- They are all that is written to the output, each to its own range. -/
  writes : w.writesTo (outputPathFor dir m) =
    (takenChunks files m (outputPathFor dir m) bs exit).map
      fun x => (x.1.toNat*m.chunkSize.toNat, x.2)
  ranges : ∀ x ∈ takenChunks files m (outputPathFor dir m) bs exit,
    x.1.toNat*m.chunkSize.toNat+x.2.length =
      min ((x.1.toNat+1)*m.chunkSize.toNat) m.fileSize.toNat
  /-- Where the run resumes, the bytes in the ranges of completed chunks keep their values. -/
  kept : ∀ cp, resumed files m (outputPathFor dir m) = some cp → ∀ i ∈ cp.completedChunks,
    ∀ old, files (outputPathFor dir m) = some old → ∀ pos < old.length,
    i.toNat*m.chunkSize.toNat ≤ pos → pos < (i.toNat+1)*m.chunkSize.toNat →
    pos < m.fileSize.toNat →
    ∃ new, w.files (outputPathFor dir m) = some new ∧ new[pos]? = old[pos]?
  /-- The checkpoint lists the chunks the run started with and those it has taken. -/
  checkpoint : exit.duringTransfer = true →
    w.files (checkpointPathForOutput (outputPathFor dir m)) = some (checkpointText
      ((startingCheckpoint files m (outputPathFor dir m)).withChunks
        ((takenChunks files m (outputPathFor dir m) bs exit).map Prod.fst)))

theorem startingCheckpoint_of_resumed {files : Files} {m : FileManifest} {out : Bytes}
    {cp : TransferCheckpoint} (h : resumed files m out = some cp) :
    startingCheckpoint files m out = cp := by
  rw [startingCheckpoint, h]
  rfl

theorem SessionEnd.exit_ne_requestNotSent {S : TransferCheckpoint → Bytes → Prop} {m : FileManifest}
    {files : Files} {out bs : Bytes} {exit : ReceiverExit} {w : World}
    (h : SessionEnd S files m out bs exit w) : exit ≠ .requestNotSent := by
  rw [h.exit_eq]
  cases hfailed : (acceptChunks m (requestedChunks files m out) bs).failed with
  | none =>
    rw [Option.getD_none, verdict]
    intro h
    split at h
    · cases h
    · split_ifs at h
  | some e =>
    have hmem := acceptChunks_failed_mem m _ bs e hfailed
    rw [Option.getD_some]
    rintro rfl
    exact absurd hmem (by decide)

theorem SessionEnd.safeRun {dir : Bytes} {m : FileManifest} (hm : m.Planned) {files : Files}
    {bs : Bytes} {exit : ReceiverExit} {w : World}
    (h : SessionEnd (fun cp text => text = checkpointText cp) files m (outputPathFor dir m) bs exit w)
    (hsent : exit ≠ .requestNotSent)
    (hpaths : ∀ q, q ∉ transferPaths dir m.filename → w.files q = files q) :
    SafeRun dir m files bs exit w := by
  have htaken : takenChunks files m (outputPathFor dir m) bs exit =
      (acceptChunks m (requestedChunks files m (outputPathFor dir m)) bs).chunks := if_neg hsent
  have hfront := acceptChunks_prefix m (requestedChunks files m (outputPathFor dir m)) bs
  have hplanned := acceptChunks_planned hm (requestedChunks files m (outputPathFor dir m)) bs
  refine ⟨hpaths, ⟨htaken ▸ hfront, requestedChunks_ascending _ _ _⟩, htaken ▸ h.writes, ?_, ?_, ?_⟩
  · intro x hx
    rw [htaken] at hx
    obtain ⟨hi, hlen⟩ := hplanned x hx
    rw [hlen]
    exact hm.chunk_end hi
  · intro cp hcp i hi old hold pos hpos hlow hhigh hsize
    have hstart := startingCheckpoint_of_resumed hcp
    have hbase : startingOutput files m (outputPathFor dir m) = old := by
      rw [startingOutput, hcp, hold]
      rfl
    have hcount := ((checkpointMatchesManifest_iff cp m).mp (resumed_eq_some.mp hcp).2.2).2.2.2.2 i hi
    refine ⟨_, h.output, ?_⟩
    rw [hbase]
    apply getElem?_storeChunks_beside _ _ _ hpos
    intro x hx
    -- a requested chunk is not a completed one, so their ranges do not meet
    have hne : i ≠ x.1 := by
      rintro rfl
      have hreq := hfront.subset (List.mem_map_of_mem hx)
      rw [mem_requestedChunks, hstart] at hreq
      exact hreq.2 hi
    have hend := hm.chunk_end hcount
    rw [(hplanned x hx).2]
    apply chunk_ranges_apart m hne pos hlow
    rw [hend]
    exact lt_min hhigh hsize
  · intro hexit
    obtain ⟨text, hf, ht⟩ := h.checkpoint (exit.code_of_duringTransfer hexit)
    rw [hf, ht, htaken]

/-- Whatever bytes arrive and wherever they end: a rejected manifest changes nothing; behind an
accepted one the run writes requested chunks to their ranges and nothing else, and the checkpoint
says which. -/
theorem receiver_safe (dir : Bytes) (files : Files) (s : TcpSocket) (ho : s.isOpen = true)
    (env : Env) (hr : env.Reliable) :
    ((receiveFileManifest s).1 = none →
      (Prog.run env.exec (receiver dir s) (boot files)).2.files = files) ∧
    ∀ m, (receiveFileManifest s).1 = some m →
      SafeRun dir m files (receiveFileManifest s).2.incoming
          (Prog.run env.exec (receiver dir s) (boot files)).1.1
          (Prog.run env.exec (receiver dir s) (boot files)).2 ∧
        ∀ x ∈ (Prog.run env.exec (receiver dir s) (boot files)).2.writesTo (outputPathFor dir m),
          x.1+x.2.length ≤ m.fileSize.toNat := by
  constructor
  · intro hnone
    rw [run_receiver_rejected env dir files s hnone]
    rfl
  · intro m hreceived
    obtain ⟨henc, hopen, hreceiver⟩ := receiver_of_received dir s ho m hreceived
    have hm := henc.planned
    rw [hreceiver]
    generalize (receiveFileManifest s).2 = s1 at hopen
    have hpaths : ∀ q, q ∉ transferPaths dir m.filename →
        (Prog.run env.exec (receiverSession dir m s1) (boot files)).2.files q = files q := by
      intro q hq
      exact ((within_receiverSession dir m s1).same env (boot files) q hq).returns.files
    obtain ⟨exit, s', w, n, hrun, -, hend⟩ :=
      run_receiverSession hm dir (hr.saveLaw _) files s1 hopen
    rw [hrun] at hpaths ⊢
    have hsafe : SafeRun dir m files s1.incoming exit w := by
      rcases hend with ⟨rfl, hfiles, hwrites, -⟩ | ⟨hend, -⟩
      · -- the request was not sent: nothing was written
        refine ⟨hpaths, ⟨List.nil_prefix, requestedChunks_ascending _ _ _⟩, ?_, ?_, ?_, ?_⟩
        · rw [World.writesTo, hwrites]
          rfl
        · intro x hx
          cases hx
        · intro _ _ _ _ old hold pos _ _ _ _
          exact ⟨old, by rw [hfiles]; exact hold, rfl⟩
        · intro hexit
          cases hexit
      · exact hend.safeRun hm hend.exit_ne_requestNotSent hpaths
    refine ⟨hsafe, ?_⟩
    intro x hx
    rw [hsafe.writes] at hx
    obtain ⟨y, hy, rfl⟩ := List.mem_map.mp hx
    rw [hsafe.ranges y hy]
    exact Nat.min_le_right _ _

/-- The stream ends behind the first of two chunks: its payload is all that is written, and the
checkpoint lists it. -/
theorem receiver_safe_first :
    let run := Prog.run Env.direct.exec (receiver (ascii "in") firstChunkOnly) (boot emptyDirectory)
    run.1.1 = .headerNotReceived ∧
      run.2.writesTo (outputPathFor (ascii "in") smallManifest) = [(0, [7, 7])] ∧
      run.2.files (checkpointPathForOutput (outputPathFor (ascii "in") smallManifest)) =
        some (checkpointText ((createCheckpointFromManifest smallManifest).withChunks [0])) := by
  intro run
  have hexit : run.1.1 = .headerNotReceived := by decide +kernel
  obtain ⟨hsafe, -⟩ := (receiver_safe (ascii "in") emptyDirectory firstChunkOnly rfl Env.direct
    Env.direct_reliable).2 smallManifest firstChunkOnly_received
  change SafeRun _ _ _ _ run.1.1 run.2 at hsafe
  have htaken : takenChunks emptyDirectory smallManifest
      (outputPathFor (ascii "in") smallManifest) (receiveFileManifest firstChunkOnly).2.incoming
      run.1.1 = [(0, [7, 7])] := by
    rw [hexit]
    decide +kernel
  have hwrites := hsafe.writes
  have hckpt := hsafe.checkpoint (by rw [hexit]; rfl)
  rw [htaken] at hwrites hckpt
  exact ⟨hexit, hwrites, hckpt⟩

end PacketBridge
