import PacketBridge.CheckpointFile
import PacketBridge.Receiver

namespace PacketBridge
open Foundations

def finishSession (outputPath checkpointPath : Bytes) (manifest : FileManifest)
    (result : Option ReceiverExit × ProgressTracker × TcpSocket) :
    FileProg (ReceiverExit × TcpSocket) :=
  match result.1 with
  | some exit => return (exit, result.2.2)
  | none => verifyOutput result.2.2 outputPath checkpointPath manifest

def continueSession (outputPath : Bytes) (manifest : FileManifest) (client : TcpSocket)
    (loaded : Option TransferCheckpoint) : FileProg (ReceiverExit × TcpSocket) :=
  let checkpoint := loaded.getD (createCheckpointFromManifest manifest)
  let sent := sendContinueRequest client {
    sessionId := manifest.sessionId
    totalChunks := manifest.chunkCount
    missingChunkIndexes := missingChunks checkpoint }
  if sent.1 then do
    let saved ← saveCheckpoint (checkpointPathForOutput outputPath) checkpoint
    if saved then
      receiveFileChunks sent.2 outputPath (checkpointPathForOutput outputPath) manifest
        (missingChunks checkpoint) checkpoint {
          totalBytes := bytesForChunks manifest (missingChunks checkpoint)
          totalChunks := UInt64.ofNat (missingChunks checkpoint).length } loaded.isNone >>=
        finishSession outputPath (checkpointPathForOutput outputPath) manifest
    else return (.checkpointNotInitialized, sent.2)
  else return (.requestNotSent, sent.2)

theorem receiverSession_eq (dir : Bytes) (m : FileManifest) (s : TcpSocket) :
    receiverSession dir m s =
      loadedCheckpoint (outputPathFor dir m) (checkpointPathForOutput (outputPathFor dir m)) m >>=
        continueSession (outputPathFor dir m) m s := by
  rw [receiverSession]
  congr 1
  funext loaded
  simp only [continueSession]
  generalize sendContinueRequest s _ = sent
  obtain ⟨ok, client⟩ := sent
  cases ok with
  | false => rfl
  | true => rfl

structure AdmitsSave (P : FileOp → Prop) (path : Bytes) : Prop where
  openTrunc : P (.openTrunc (temporaryPath path))
  write : ∀ data, P (.write (temporaryPath path) data)
  close : P (.close (temporaryPath path))
  remove : P (.remove path)
  rename : P (.rename (temporaryPath path) path)

structure AdmitsOutput (P : FileOp → Prop) (out : Bytes) : Prop where
  openInOut : P (.openInOut out)
  seekp : ∀ offset, P (.seekp out offset)
  write : ∀ data, P (.write out data)
  close : P (.close out)

section Calls

variable {P : FileOp → Prop} (hread : ∀ p, P (.read p))

theorem calls_call {o : FileOp} (h : P o) : Prog.Calls P (call o) := (Prog.calls_perform o).mpr h

theorem calls_saveCheckpoint {path : Bytes} (hs : AdmitsSave P path) (cp : TransferCheckpoint) :
    Prog.Calls P (saveCheckpoint path cp) := by
  apply (calls_call hs.openTrunc).bind
  intro opened
  split
  · apply (calls_call (hs.write _)).bind
    intro _
    apply (calls_call hs.close).bind
    intro _
    apply (calls_call hs.remove).bind
    intro _
    exact calls_call hs.rename
  · exact Prog.calls_pure _

include hread

theorem calls_fileExists (p : Bytes) : Prog.Calls P (fileExists p) :=
  (calls_call (hread p)).bind fun _ => Prog.calls_pure _

theorem calls_loadCheckpoint (p : Bytes) : Prog.Calls P (loadCheckpoint p) :=
  (calls_call (hread p)).bind fun _ => Prog.calls_pure _

theorem calls_removeCheckpoint {path : Bytes} (hr : P (.remove path)) :
    Prog.Calls P (removeCheckpoint path) := by
  apply (calls_call hr).bind
  intro removed
  split
  · exact Prog.calls_pure _
  · exact (calls_fileExists hread path).bind fun _ => Prog.calls_pure _

theorem calls_loadedCheckpoint (out ckpt : Bytes) (m : FileManifest) :
    Prog.Calls P (loadedCheckpoint out ckpt m) := by
  apply (calls_fileExists hread out).bind
  intro output
  split
  · exact (calls_loadCheckpoint hread ckpt).bind fun _ => Prog.calls_pure _
  · exact Prog.calls_pure _

theorem calls_verifyOutput {ckpt : Bytes} (hr : P (.remove ckpt)) (out : Bytes)
    (m : FileManifest) (s : TcpSocket) : Prog.Calls P (verifyOutput s out ckpt m) := by
  unfold verifyOutput
  split
  · exact Prog.calls_pure _
  · split
    · exact Prog.calls_pure _
    · apply (calls_call (hread out)).bind
      intro output
      split
      · exact Prog.calls_pure _
      · split
        · exact (calls_removeCheckpoint hread hr).bind fun _ => Prog.calls_pure _
        · exact Prog.calls_pure _

/-- Only a fresh transfer empties the output. -/
theorem calls_prepareOutputFile {out : Bytes} (ho : AdmitsOutput P out) (fresh : Bool)
    (hf : fresh = true → P (.openTrunc out)) : Prog.Calls P (prepareOutputFile out fresh) := by
  cases fresh with
  | true =>
    apply (calls_call (hf rfl)).bind
    intro create
    exact (calls_call ho.close).bind fun _ => Prog.calls_pure _
  | false => exact calls_fileExists hread out

omit hread

theorem calls_receiveLoop {out ckpt : Bytes} (ho : AdmitsOutput P out) (hs : AdmitsSave P ckpt)
    (m : FileManifest) (idxs : List UInt64) (cp : TransferCheckpoint) (t : ProgressTracker)
    (s : TcpSocket) : Prog.Calls P (receiveLoop out ckpt m idxs cp t s) := by
  induction idxs generalizing cp t s with
  | nil => exact Prog.calls_pure _
  | cons i is ih =>
    rw [receiveLoop]
    split
    · exact Prog.calls_pure _
    · split
      · exact Prog.calls_pure _
      · split
        · exact Prog.calls_pure _
        · -- a header and its payload are there
          apply (calls_call (ho.seekp _)).bind
          intro _
          apply (calls_call (ho.write _)).bind
          intro written
          split
          · apply (calls_saveCheckpoint hs _).bind
            intro saved
            split
            · exact ih _ _ _
            · exact Prog.calls_pure _
          · exact Prog.calls_pure _

include hread

theorem calls_receiveFileChunks {out ckpt : Bytes} (ho : AdmitsOutput P out)
    (hs : AdmitsSave P ckpt) (m : FileManifest) (idxs : List UInt64) (cp : TransferCheckpoint)
    (t : ProgressTracker) (s : TcpSocket) (fresh : Bool) (hf : fresh = true → P (.openTrunc out)) :
    Prog.Calls P (receiveFileChunks s out ckpt m idxs cp t fresh) := by
  apply (calls_prepareOutputFile hread ho fresh hf).bind
  intro prepared
  split
  · apply (calls_call ho.openInOut).bind
    intro opened
    split
    · apply (calls_receiveLoop ho hs m idxs cp t s).bind
      intro result
      exact (calls_call ho.close).bind fun _ => Prog.calls_pure _
    · exact Prog.calls_pure _
  · exact Prog.calls_pure _

theorem calls_receiverSession (dir : Bytes) (m : FileManifest) (s : TcpSocket)
    (ho : AdmitsOutput P (outputPathFor dir m))
    (hs : AdmitsSave P (checkpointPathForOutput (outputPathFor dir m)))
    (hf : P (.openTrunc (outputPathFor dir m))) : Prog.Calls P (receiverSession dir m s) := by
  rw [receiverSession]
  apply (calls_loadedCheckpoint hread _ _ m).bind
  intro loaded
  simp only
  split
  · exact Prog.calls_pure _
  · apply (calls_saveCheckpoint hs _).bind
    intro saved
    split
    · apply (calls_receiveFileChunks hread ho hs m _ _ _ _ _ fun _ => hf).bind
      intro result
      obtain ⟨failed, _, client⟩ := result
      cases failed with
      | some exit => exact Prog.calls_pure _
      | none => exact calls_verifyOutput hread hs.remove _ m client
    · exact Prog.calls_pure _

end Calls

section History

variable (env : Env) {α : Type} {p : FileProg α} {w : World} {o : FileOp}

/-- A program adds its calls to the history and takes none away. -/
theorem mem_history_run (p : FileProg α) (h : o ∈ w.history) :
    o ∈ (Prog.run env.exec p w).2.history := by
  induction p generalizing w with
  | ret a => exact h
  | call o' k ih =>
    apply ih
    rw [exec_history]
    exact List.mem_append_left _ h

theorem history_length_run (p : FileProg α) (w : World) :
    (Prog.run env.exec p w).2.history.length = w.history.length+p.steps env.exec w := by
  induction p generalizing w with
  | ret a => rfl
  | call o k ih =>
    rw [Prog.run, ih, length_exec_history, Prog.steps]
    omega

theorem not_mem_history_run (hp : Prog.Calls (· ≠ o) p) (h : o ∉ w.history) :
    o ∉ (Prog.run env.exec p w).2.history := by
  induction p generalizing w with
  | ret a => exact h
  | call o' k ih =>
    apply ih _ (hp.2 _)
    rw [exec_history, List.mem_append, List.mem_singleton, not_or]
    exact ⟨h, Ne.symm hp.1⟩

end History

theorem read_ne_openTrunc (out p : Bytes) : FileOp.read p ≠ .openTrunc out := by
  rintro ⟨⟩

/-- Only the call that empties the output is left out. -/
theorem admits_not_truncating (out : Bytes) :
    AdmitsOutput (· ≠ .openTrunc out) out ∧
      AdmitsSave (· ≠ .openTrunc out) (checkpointPathForOutput out) := by
  refine ⟨⟨nofun, nofun, nofun, nofun⟩, ⟨?_, nofun, nofun, nofun, nofun⟩⟩
  intro h
  exact temporaryPath_checkpointPath_ne out (FileOp.openTrunc.inj h)

theorem mem_history_receiveFileChunks (env : Env) (out : Bytes) (m : FileManifest)
    (idxs : List UInt64) (cp : TransferCheckpoint) (t : ProgressTracker) (s : TcpSocket)
    (fresh : Bool) (w : World) (hw : .openTrunc out ∉ w.history) :
    .openTrunc out ∈ (Prog.run env.exec (receiveFileChunks s out (checkpointPathForOutput out) m
      idxs cp t fresh) w).2.history ↔ fresh = true := by
  obtain ⟨ho, hs⟩ := admits_not_truncating out
  cases fresh with
  | true =>
    refine iff_of_true ?_ rfl
    rw [receiveFileChunks, prepareOutputFile, if_pos rfl, Prog.run_bind, Prog.run_bind]
    apply mem_history_run
    apply mem_history_run
    rw [call, Prog.run_perform, exec_history]
    exact List.mem_append_right _ (List.mem_singleton_self _)
  | false =>
    refine iff_of_false ?_ Bool.false_ne_true
    exact not_mem_history_run env
      (calls_receiveFileChunks (read_ne_openTrunc out) ho hs m idxs cp t s false
        fun h => absurd h Bool.false_ne_true) hw

/-- The verification neither empties the output nor forgets that it was emptied. -/
theorem mem_history_verifyOutput (env : Env) (m : FileManifest) (out : Bytes) (s : TcpSocket)
    (w : World) : .openTrunc out ∈ (Prog.run env.exec
        (verifyOutput s out (checkpointPathForOutput out) m) w).2.history ↔
      .openTrunc out ∈ w.history := by
  have hcalls : Prog.Calls (· ≠ .openTrunc out)
      (verifyOutput s out (checkpointPathForOutput out) m) :=
    calls_verifyOutput (read_ne_openTrunc out) (admits_not_truncating out).2.remove out m s
  constructor
  · intro h
    by_contra hn
    exact not_mem_history_run env hcalls hn h
  · exact mem_history_run env _

end PacketBridge
