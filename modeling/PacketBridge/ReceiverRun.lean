import PacketBridge.ReceiverCalls
import PacketBridge.ReceiverLoop

/-! A whole run of the receiver when every file operation works: its exit and the files it leaves,
as functions of the directory and the stream. -/
namespace PacketBridge
open Foundations

def resumed (files : Files) (m : FileManifest) (out : Bytes) : Option TransferCheckpoint :=
  if (files out).isSome then
    ((files (checkpointPathForOutput out)).bind parseCheckpoint).filter fun cp =>
      checkpointMatchesManifest cp m
  else none

def startingCheckpoint (files : Files) (m : FileManifest) (out : Bytes) : TransferCheckpoint :=
  (resumed files m out).getD (createCheckpointFromManifest m)

/-- The output the chunks are written into: emptied unless the session resumes. -/
def startingOutput (files : Files) (m : FileManifest) (out : Bytes) : Bytes :=
  if (resumed files m out).isNone then [] else (files out).getD []

def requestedChunks (files : Files) (m : FileManifest) (out : Bytes) : List UInt64 :=
  missingChunks (startingCheckpoint files m out)

def sessionRequest (files : Files) (m : FileManifest) (out : Bytes) : ContinueRequest :=
  { sessionId := m.sessionId
    totalChunks := m.chunkCount
    missingChunkIndexes := requestedChunks files m out }

/-- The exit taken on the hash packet, once every requested chunk is there. -/
def verdict (m : FileManifest) (out content rest : Bytes) : ReceiverExit :=
  match (parseHashPacket rest).1 with
  | none => .hashNotReceived
  | some hashPacket =>
    if hashPacket.sessionId ≠ m.sessionId then .hashNotReceived
    else if sha256File content = hashPacket.sha256Hex then
      .complete out (checkpointPathForOutput out) m.fileSize true
    else .integrityFailed

theorem resumed_eq_some {files : Files} {m : FileManifest} {out : Bytes} {cp : TransferCheckpoint} :
    resumed files m out = some cp ↔ (∃ c, files out = some c) ∧ (∃ text,
      files (checkpointPathForOutput out) = some text ∧ parseCheckpoint text = some cp) ∧
      checkpointMatchesManifest cp m = true := by
  unfold resumed
  split
  · rename_i h
    rw [Option.filter_eq_some_iff, Option.bind_eq_some_iff]
    simp only [Option.isSome_iff_exists.mp h, true_and]
  · rename_i h
    rw [Option.not_isSome_iff_eq_none] at h
    simp only [h, reduceCtorEq, exists_false, false_and]

/-- Resumed or fresh, a session starts from a checkpoint with the manifest's own fields. -/
theorem startingCheckpoint_matches (files : Files) (m : FileManifest) (out : Bytes) :
    checkpointMatchesManifest (startingCheckpoint files m out) m = true := by
  unfold startingCheckpoint
  cases h : resumed files m out with
  | some cp => exact (resumed_eq_some.mp h).2.2
  | none =>
    rw [Option.getD_none]
    exact createCheckpoint_matches m

theorem mem_requestedChunks (files : Files) (m : FileManifest) (out : Bytes) (i : UInt64) :
    i ∈ requestedChunks files m out ↔
      i < m.chunkCount ∧ i ∉ (startingCheckpoint files m out).completedChunks := by
  have hm := (checkpointMatchesManifest_iff _ _).mp (startingCheckpoint_matches files m out)
  rw [requestedChunks, mem_missingChunks, hm.2.2.2.1]

theorem requestedChunks_ascending (files : Files) (m : FileManifest) (out : Bytes) :
    (requestedChunks files m out).Pairwise (· < ·) := missingChunks_ascending _

theorem nodup_acceptChunks (files : Files) (m : FileManifest) (out bs : Bytes) :
    ((acceptChunks m (requestedChunks files m out) bs).chunks.map Prod.fst).Nodup := by
  have hfront := acceptChunks_prefix m (requestedChunks files m out) bs
  have hasc := (requestedChunks_ascending files m out).sublist hfront.sublist
  exact hasc.imp fun hlt => ne_of_lt hlt

theorem run_loadedCheckpoint {env : Env} (hs : ∀ n p, env.fault n (.read p) = none)
    (m : FileManifest) (out : Bytes) (w : World) :
    ∃ w', Prog.run env.exec (loadedCheckpoint out (checkpointPathForOutput out) m) w =
        (resumed w.files m out, w') ∧ w'.files = w.files ∧ w'.streams = w.streams ∧
      w'.writes = w.writes ∧
      w'.history.length = w.history.length+(if (w.files out).isSome then 2 else 1) := by
  have hread := exec_read (hs w.history.length out)
  cases he : (w.files out).isSome with
  | false =>
    refine ⟨w.log (.read out), ?_, rfl, rfl, rfl, ?_⟩
    · simp only [loadedCheckpoint, fileExists, call, Prog.run_bind, Prog.run_perform, hread,
        Prog.run_pure, he, Bool.false_eq_true, ↓reduceIte, resumed]
    · rw [World.log_history, List.length_append, List.length_singleton, if_neg Bool.false_ne_true]
  | true =>
    have hread' := exec_read (hs (w.log (.read out)).history.length
      (checkpointPathForOutput out))
    refine ⟨(w.log (.read out)).log (.read (checkpointPathForOutput out)), ?_, rfl, rfl, rfl, ?_⟩
    · simp only [loadedCheckpoint, loadCheckpoint, fileExists, call, Prog.run_bind,
        Prog.run_perform, hread, hread', Prog.run_pure, he, ↓reduceIte, resumed, World.log_files]
    · simp only [World.log_history, List.length_append, List.length_singleton, ↓reduceIte]

/-- Preparing and opening the output when it works: it is emptied or kept, and its stream is
open at the beginning. -/
theorem run_prepare_open {env : Env} {S : TransferCheckpoint → Bytes → Prop} {out : Bytes}
    (hl : SaveLaw env (checkpointPathForOutput out) S) (fresh : Bool) (w : World)
    (he : fresh = false → (w.files out).isSome = true) :
    ∃ w1 w2, Prog.run env.exec (prepareOutputFile out fresh) w = (true, w1) ∧
      env.exec (.openInOut out) w1 = (true, w2) ∧
      w2.view out = some (if fresh then [] else (w.files out).getD []) ∧
      (w2.streams out).good = true ∧ w2.writesTo out = w.writesTo out ∧
      ∀ q, q ≠ out → World.Same q w w2 := by
  have htout := temporaryPath_checkpointPath_ne out
  have hr (n : ℕ) (o : FileOp) (ho : o.touches = [] ∨ o.touches = [out]) :
      env.fault n o = none := by
    apply hl.calls
    rcases ho with ho | ho
    · rw [ho]
      exact List.not_mem_nil
    · rwa [ho, List.mem_singleton]
  cases fresh with
  | false =>
    have hsome := he rfl
    obtain ⟨c, hc⟩ := Option.isSome_iff_exists.mp hsome
    have hread := exec_read (hr w.history.length (.read out) (Or.inl rfl))
    have hopen := exec_openInOut
      (hr (w.log (.read out)).history.length (.openInOut out) (Or.inr rfl)) hsome
    refine ⟨_, _, ?_, hopen, ?_, ?_, rfl, fun q hq => ⟨rfl, ?_, rfl⟩⟩
    · simp only [prepareOutputFile, fileExists, call, Bool.false_eq_true, ↓reduceIte,
        Prog.run_bind, Prog.run_perform, hread, Prog.run_pure, hsome]
    · rw [World.view_of_pending_nil _ _ (by rw [World.setStream_streams_self])]
      simp only [World.setStream_files, World.log_files, hc, Bool.false_eq_true, ↓reduceIte,
        Option.getD_some]
    · rw [World.setStream_streams_self]
    · rw [World.setStream_streams_of_ne _ _ _ _ hq]
      rfl
  | true =>
    -- a fresh output is emptied and closed before it is opened for the chunks
    have hopen := exec_openTrunc (hr w.history.length (.openTrunc out) (Or.inr rfl))
    have hclose := exec_close (hr (((w.log (.openTrunc out)).setFile out (some [])).setStream out
      { good := true }).history.length (.close out) (Or.inr rfl))
    generalize hw1 : (((((w.log (.openTrunc out)).setFile out (some [])).setStream out
      { good := true }).log (.close out)).flush out).setStream out {} = w1 at hclose
    have hfile : w1.files out = some [] := by
      rw [← hw1, World.setStream_files, World.flush_files_self, World.view_of_pending_nil _ _ (by
        rw [World.log_streams, World.setStream_streams_self])]
      rw [World.log_files, World.setStream_files, World.setFile_files_self]
    have hsame (q : Bytes) (hq : q ≠ out) : World.Same q w w1 := by
      rw [← hw1]
      refine ⟨?_, ?_, rfl⟩
      · rw [World.setStream_files, World.flush_files_of_ne _ _ _ hq, World.log_files,
          World.setStream_files, World.setFile_files_of_ne _ _ _ _ hq, World.log_files]
      · rw [World.setStream_streams_of_ne _ _ _ _ hq, World.flush_streams_of_ne _ _ _ hq,
          World.log_streams, World.setStream_streams_of_ne _ _ _ _ hq]
        rfl
    have hwrites : w1.writesTo out = w.writesTo out := by
      rw [← hw1]
      rfl
    have hopen' := exec_openInOut (hr w1.history.length (.openInOut out) (Or.inr rfl))
      (by rw [hfile]; rfl)
    refine ⟨w1, _, ?_, hopen', ?_, ?_, hwrites, fun q hq => ?_⟩
    · simp only [prepareOutputFile, call, ↓reduceIte, Prog.run_bind, Prog.run_perform, hopen,
        hclose, Prog.run_pure]
    · rw [World.view_of_pending_nil _ _ (by rw [World.setStream_streams_self])]
      simp only [World.setStream_files, World.log_files, hfile, ↓reduceIte]
    · rw [World.setStream_streams_self]
    · refine (hsame q hq).trans ⟨rfl, ?_, rfl⟩
      rw [World.setStream_streams_of_ne _ _ _ _ hq]
      rfl

structure ChunksEnd (S : TransferCheckpoint → Bytes → Prop) (m : FileManifest) (out : Bytes)
    (cp : TransferCheckpoint) (content : Bytes) (chunks : List (UInt64 × Bytes)) (w w' : World) :
    Prop where
  output : w'.files out = some (storeChunks m content chunks)
  checkpoint : ∃ text, w'.files (checkpointPathForOutput out) = some text ∧
    S (cp.withChunks (chunks.map Prod.fst)) text
  temporary : w'.files (temporaryPath (checkpointPathForOutput out)) = none
  writes : w'.writesTo out =
    w.writesTo out ++ chunks.map fun x => (m.chunkOffset x.1, x.2)
  files : ∀ q, q ≠ out → q ≠ checkpointPathForOutput out →
    q ≠ temporaryPath (checkpointPathForOutput out) → w'.files q = w.files q

theorem run_receiveFileChunks {env : Env} {S : TransferCheckpoint → Bytes → Prop} {out : Bytes}
    (hl : SaveLaw env (checkpointPathForOutput out) S) {m : FileManifest} (hm : m.Planned)
    (idxs : List UInt64) (cp : TransferCheckpoint) (t : ProgressTracker) (s : TcpSocket)
    (w : World) (fresh : Bool) (ho : s.isOpen = true)
    (he : fresh = false → (w.files out).isSome = true)
    (hc : ∃ text, w.files (checkpointPathForOutput out) = some text ∧ S cp text)
    (ht : w.files (temporaryPath (checkpointPathForOutput out)) = none) :
    ∃ n k t' w', Prog.run env.exec
        (receiveFileChunks s out (checkpointPathForOutput out) m idxs cp t fresh) w =
        (((acceptChunks m idxs s.incoming).failed, t', s.skip n k), w') ∧
      s.incoming.drop n = (acceptChunks m idxs s.incoming).rest ∧
      ChunksEnd S m out cp (if fresh then [] else (w.files out).getD [])
        (acceptChunks m idxs s.incoming).chunks w w' := by
  have hcout := checkpointPath_ne out
  have htout := temporaryPath_checkpointPath_ne out
  obtain ⟨w1, w2, hprep, hopen, hv, hg, hwr, hsame⟩ := run_prepare_open hl fresh w he
  obtain ⟨n, k, t', w3, hrun, hrest, hend⟩ := run_receiveLoop hl hm idxs cp t s w2 _ ho hg hv
    (by rw [(hsame _ hcout).files]; exact hc) (by rw [(hsame _ htout).files, ht])
  have hfree : env.fault w3.history.length (.close out) = none :=
    hl.calls _ _ (by rwa [FileOp.touches, List.mem_singleton])
  have hclose := exec_close hfree
  refine ⟨n, k, t', (env.exec (.close out) w3).2, ?_, hrest, ?_⟩
  · simp only [receiveFileChunks, call, Prog.run_bind, Prog.run_perform, hprep, hopen, ↓reduceIte,
      hrun, Prog.run_pure]
  · have hcl (q : Bytes) (hq : q ≠ out) : World.Same q w3 (env.exec (.close out) w3).2 :=
      exec_same env (.close out) w3 q (by rwa [FileOp.touches, List.mem_singleton])
    refine ⟨?_, ?_, ?_, ?_, fun q hq hq' hq'' => ?_⟩
    · exact (exec_close_files hfree).trans hend.output
    · rw [(hcl _ hcout).files]
      exact hend.checkpoint
    · rw [(hcl _ htout).files, hend.temporary]
    · rw [hclose, ← hwr, ← hend.writes]
      rfl
    · rw [(hcl q hq).files, (hend.same q hq hq' hq'').files, (hsame q hq).files]

/-- How a session ends once its request is sent: the exit, and the files as functions of the
directory it started from and of the bytes `bs` that followed the manifest. -/
structure SessionEnd (S : TransferCheckpoint → Bytes → Prop) (files : Files) (m : FileManifest)
    (out bs : Bytes) (exit : ReceiverExit) (w' : World) : Prop where
  exit_eq : exit = ((acceptChunks m (requestedChunks files m out) bs).failed.getD
    (verdict m out (storeChunks m (startingOutput files m out)
      (acceptChunks m (requestedChunks files m out) bs).chunks)
      (acceptChunks m (requestedChunks files m out) bs).rest))
  output : w'.files out = some (storeChunks m (startingOutput files m out)
    (acceptChunks m (requestedChunks files m out) bs).chunks)
  removed : exit.code = 0 → w'.files (checkpointPathForOutput out) = none
  checkpoint : exit.code ≠ 0 → ∃ text, w'.files (checkpointPathForOutput out) = some text ∧
    S ((startingCheckpoint files m out).withChunks
      ((acceptChunks m (requestedChunks files m out) bs).chunks.map Prod.fst)) text
  temporary : w'.files (temporaryPath (checkpointPathForOutput out)) = none
  writes : w'.writesTo out = (acceptChunks m (requestedChunks files m out) bs).chunks.map
    fun x => (m.chunkOffset x.1, x.2)
  truncated : .openTrunc out ∈ w'.history ↔ resumed files m out = none
  files : ∀ q, q ≠ out → q ≠ checkpointPathForOutput out →
    q ≠ temporaryPath (checkpointPathForOutput out) → w'.files q = files q

/-- The exits of the loop on a chunk that is missing or wrong. -/
theorem acceptChunks_failed_mem (m : FileManifest) (idxs : List UInt64) (bs : Bytes)
    (exit : ReceiverExit) (h : (acceptChunks m idxs bs).failed = some exit) :
    exit ∈ [ReceiverExit.headerNotReceived, .headerInvalid, .payloadNotReceived, .writeFailed] := by
  induction idxs generalizing bs with
  | nil => cases h
  | cons i is ih =>
    unfold acceptChunks at h
    split at h
    · obtain rfl := Option.some.inj h
      decide
    · simp only at h
      split_ifs at h
      · obtain rfl := Option.some.inj h
        decide
      · obtain rfl := Option.some.inj h
        decide
      · obtain rfl := Option.some.inj h
        decide
      · exact ih _ h

theorem acceptChunks_failed_code (m : FileManifest) (idxs : List UInt64) (bs : Bytes)
    (exit : ReceiverExit) (h : (acceptChunks m idxs bs).failed = some exit) : exit.code = 1 :=
  (show ∀ e ∈ [ReceiverExit.headerNotReceived, .headerInvalid, .payloadNotReceived, .writeFailed],
    e.code = 1 by decide) exit (acceptChunks_failed_mem m idxs bs exit h)

/-- The verification: the verdict, and the checkpoint gone with a success. -/
theorem run_verifyOutput {env : Env} {S : TransferCheckpoint → Bytes → Prop} {out : Bytes}
    (hl : SaveLaw env (checkpointPathForOutput out) S) (m : FileManifest)
    (s : TcpSocket) (w : World) (content : Bytes) (ho : s.isOpen = true)
    (hv : w.files out = some content)
    (hc : (w.files (checkpointPathForOutput out)).isSome = true) :
    ∃ n k w', Prog.run env.exec (verifyOutput s out (checkpointPathForOutput out) m) w =
        ((verdict m out content s.incoming, s.skip n k), w') ∧
      w'.files (checkpointPathForOutput out) = (if (verdict m out content s.incoming).code = 0
        then none else w.files (checkpointPathForOutput out)) ∧
      ∀ q, q ≠ checkpointPathForOutput out → w'.files q = w.files q ∧
        w'.writesTo q = w.writesTo q := by
  obtain ⟨k, hk⟩ := receiveHashPacket_reads s ho
  rw [verifyOutput, hk]
  cases hp : parseHashPacket s.incoming with
  | mk packet n =>
    cases packet with
    | none =>
      have hverdict : verdict m out content s.incoming = .hashNotReceived := by rw [verdict, hp]
      rw [hverdict]
      exact ⟨n, k, w, rfl, rfl, fun _ _ => ⟨rfl, rfl⟩⟩
    | some packet =>
      simp only
      by_cases hses : packet.sessionId ≠ m.sessionId
      · have hverdict : verdict m out content s.incoming = .hashNotReceived := by
          rw [verdict, hp]
          exact if_pos hses
        rw [if_pos hses, hverdict]
        exact ⟨n, k, w, rfl, rfl, fun _ _ => ⟨rfl, rfl⟩⟩
      · rw [if_neg hses]
        have hread := exec_read (hl.calls w.history.length (.read out) List.not_mem_nil)
        rw [hv] at hread
        -- the checkpoint goes only with a success
        by_cases hh : sha256File content = packet.sha256Hex
        · have hverdict : verdict m out content s.incoming =
              .complete out (checkpointPathForOutput out) m.fileSize true := by
            rw [verdict, hp]
            exact (if_neg hses).trans (if_pos hh)
          have hfault (n : ℕ) : env.fault n (.remove (checkpointPathForOutput out)) = none := by
            apply hl.calls
            rw [FileOp.touches, List.mem_singleton]
            exact temporaryPath_ne _
          have hrem := exec_remove (hfault (w.log (.read out)).history.length)
          have hremoved : (env.exec (.remove (checkpointPathForOutput out))
              (w.log (.read out))).1 = true := by
            simp only [Env.exec, FileOp.effect, hfault, World.log_files, hc, and_self, ↓reduceIte]
          rw [hverdict]
          refine ⟨n, k, (env.exec (.remove (checkpointPathForOutput out)) (w.log (.read out))).2,
            ?_, ?_, fun q hq => ?_⟩
          · simp only [call, Prog.run_bind, Prog.run_perform, hread, hh, ↓reduceIte,
              removeCheckpoint, hremoved, Prog.run_pure]
          · rw [hrem, World.setFile_files_self]
            rfl
          · rw [hrem, World.setFile_files_of_ne _ _ _ _ hq]
            exact ⟨rfl, rfl⟩
        · have hverdict : verdict m out content s.incoming = .integrityFailed := by
            rw [verdict, hp]
            exact (if_neg hses).trans (if_neg hh)
          rw [hverdict]
          refine ⟨n, k, w.log (.read out), ?_, rfl, fun _ _ => ⟨rfl, rfl⟩⟩
          simp only [call, Prog.run_bind, Prog.run_perform, hread, hh, ↓reduceIte, Prog.run_pure]

section Session

variable {env : Env} {S : TransferCheckpoint → Bytes → Prop} {m : FileManifest} {out : Bytes}
  {files : Files}

/-- A session from the end of its chunks on: it stops as they did, or verifies the output. -/
theorem run_finishSession (hl : SaveLaw env (checkpointPathForOutput out) S) {bs : Bytes}
    (t : ProgressTracker) (s : TcpSocket) (ho : s.isOpen = true)
    (hin : s.incoming = (acceptChunks m (requestedChunks files m out) bs).rest) {w w' : World}
    (hend : ChunksEnd S m out (startingCheckpoint files m out) (startingOutput files m out)
      (acceptChunks m (requestedChunks files m out) bs).chunks w w')
    (hwrites : w.writesTo out = [])
    (hfiles : ∀ q, q ≠ checkpointPathForOutput out →
      q ≠ temporaryPath (checkpointPathForOutput out) → w.files q = files q)
    (htrunc : .openTrunc out ∈ w'.history ↔ resumed files m out = none) :
    ∃ exit s' w'', Prog.run env.exec (finishSession out (checkpointPathForOutput out) m
        ((acceptChunks m (requestedChunks files m out) bs).failed, t, s)) w' =
        ((exit, s'), w'') ∧
      s'.sent = s.sent ∧ SessionEnd S files m out bs exit w'' := by
  have hcout := checkpointPath_ne out
  have hothers (q : Bytes) (hq : q ≠ out) (hq' : q ≠ checkpointPathForOutput out)
      (hq'' : q ≠ temporaryPath (checkpointPathForOutput out)) : w'.files q = files q := by
    rw [hend.files q hq hq' hq'', hfiles q hq' hq'']
  have hstored := hend.writes
  rw [hwrites, List.nil_append] at hstored
  -- the loop has stopped with an exit, or every chunk that was asked for is there
  cases hfailed : (acceptChunks m (requestedChunks files m out) bs).failed with
  | some exit =>
    have hcode := acceptChunks_failed_code _ _ _ _ hfailed
    refine ⟨exit, s, w', rfl, rfl, ?_, hend.output, ?_, fun _ => hend.checkpoint, hend.temporary,
      hstored, htrunc, hothers⟩
    · rw [hfailed]
      rfl
    · rw [hcode]
      exact fun h => absurd h one_ne_zero
  | none =>
    obtain ⟨n, k, w'', hrun, hck, hother⟩ := run_verifyOutput hl m s w' _ ho hend.output
      (Option.isSome_iff_exists.mpr (hend.checkpoint.imp fun _ h => h.1))
    have hkept := mem_history_verifyOutput env m out s w'
    rw [hrun] at hkept
    rw [hin] at hrun hck
    refine ⟨_, _, w'', hrun, rfl, ?_, ?_, ?_, ?_, ?_, ?_, hkept.trans htrunc, ?_⟩
    · rw [hfailed]
      rfl
    · rw [(hother out (Ne.symm hcout)).1, hend.output]
    · intro hcode
      rw [hck, if_pos hcode]
    · intro hcode
      rw [hck, if_neg hcode]
      exact hend.checkpoint
    · rw [(hother _ (temporaryPath_ne _)).1, hend.temporary]
    · rw [(hother out (Ne.symm hcout)).2, hstored]
    · intro q hq hq' hq''
      rw [(hother q hq').1, hothers q hq hq' hq'']

/-- A session from its first save on, over the stream that follows the manifest. -/
theorem run_savedSession (hl : SaveLaw env (checkpointPathForOutput out) S) (hm : m.Planned)
    (t : ProgressTracker) (s : TcpSocket) (ho : s.isOpen = true) {w : World}
    (hfiles : w.files = files) (hwrites : w.writes = []) (hkept : .openTrunc out ∉ w.history) :
    ∃ exit s' w', Prog.run env.exec (do
        let saved ← saveCheckpoint (checkpointPathForOutput out) (startingCheckpoint files m out)
        if saved then
          receiveFileChunks s out (checkpointPathForOutput out) m (requestedChunks files m out)
            (startingCheckpoint files m out) t (resumed files m out).isNone >>=
            finishSession out (checkpointPathForOutput out) m
        else return (.checkpointNotInitialized, s)) w = ((exit, s'), w') ∧
      s'.sent = s.sent ∧ SessionEnd S files m out s.incoming exit w' := by
  have hne : out ≠ checkpointPathForOutput out := Ne.symm (checkpointPath_ne out)
  have hnt : out ≠ temporaryPath (checkpointPathForOutput out) :=
    Ne.symm (temporaryPath_checkpointPath_ne out)
  have hkept1 := not_mem_history_run env (calls_saveCheckpoint (admits_not_truncating out).2
    (startingCheckpoint files m out)) hkept
  generalize hsave : Prog.run env.exec (saveCheckpoint (checkpointPathForOutput out)
    (startingCheckpoint files m out)) w = saved at hkept1
  obtain ⟨ok, w1⟩ := saved
  obtain ⟨rfl, htext, htmp, hsame⟩ := hl.save _ _ _ _ hsave
  have hout := hsame out hne hnt
  -- a session that resumes has an output to keep, a fresh one empties it
  have hexists : (resumed files m out).isNone = false → (w1.files out).isSome = true := by
    intro h
    rw [Option.isNone_eq_false_iff] at h
    obtain ⟨cp, hcp⟩ := Option.isSome_iff_exists.mp h
    obtain ⟨c, hc⟩ := (resumed_eq_some.mp hcp).1
    rw [hout.files, hfiles, hc]
    rfl
  have hbase : (if (resumed files m out).isNone then [] else (w1.files out).getD []) =
      startingOutput files m out := by
    rw [hout.files, hfiles]
    rfl
  obtain ⟨n, k, t', w2, hrun, hrest, hend⟩ := run_receiveFileChunks hl hm
    (requestedChunks files m out) (startingCheckpoint files m out) t s w1
    (resumed files m out).isNone ho hexists htext htmp
  rw [hbase] at hend
  have htrunc := mem_history_receiveFileChunks env out m (requestedChunks files m out)
    (startingCheckpoint files m out) t s (resumed files m out).isNone w1 hkept1
  rw [hrun, Option.isNone_iff_eq_none] at htrunc
  have hwrites1 : w1.writesTo out = [] := by
    rw [hout.writesTo, World.writesTo, hwrites]
    rfl
  have hothers (q : Bytes) (hq : q ≠ checkpointPathForOutput out)
      (hq' : q ≠ temporaryPath (checkpointPathForOutput out)) : w1.files q = files q := by
    rw [(hsame q hq hq').files, hfiles]
  obtain ⟨exit, s', w', hfinish, hsent, hsession⟩ := run_finishSession hl t' (s.skip n k) ho hrest
    hend hwrites1 hothers htrunc
  refine ⟨exit, s', w', ?_, hsent, hsession⟩
  rw [Prog.run_bind, hsave, if_pos rfl, Prog.run_bind, hrun, hfinish]

end Session

/-- A session. Either its request is not sent and nothing has changed, or it
ends as `SessionEnd` says; the request, or the part of it that was sent, is all it sends. -/
theorem run_receiverSession {env : Env} {S : TransferCheckpoint → Bytes → Prop}
    {m : FileManifest} (hm : m.Planned) (dir : Bytes)
    (hl : SaveLaw env (checkpointPathForOutput (outputPathFor dir m)) S) (files : Files)
    (s : TcpSocket) (ho : s.isOpen = true) :
    ∃ exit s' w' n, Prog.run env.exec (receiverSession dir m s) (boot files) = ((exit, s'), w') ∧
      s'.sent = s.sent ++ (serializeContinueRequest
        (sessionRequest files m (outputPathFor dir m))).take n ∧
      ((exit = .requestNotSent ∧ w'.files = files ∧ w'.writes = [] ∧ s.room ≠ none ∧
          .openTrunc (outputPathFor dir m) ∉ w'.history) ∨
        SessionEnd S files m (outputPathFor dir m) s.incoming exit w' ∧
          s'.sent = s.sent ++
            serializeContinueRequest (sessionRequest files m (outputPathFor dir m))) := by
  rw [receiverSession_eq]
  generalize outputPathFor dir m = out at hl ⊢
  obtain ⟨w1, hload, hfiles, -, hwrites, -⟩ :=
    run_loadedCheckpoint (fun n p => hl.calls n (.read p) List.not_mem_nil) m out (boot files)
  have hkept := not_mem_history_run env (w := boot files) (o := .openTrunc out)
    (calls_loadedCheckpoint (read_ne_openTrunc out) out (checkpointPathForOutput out) m)
    List.not_mem_nil
  rw [hload] at hkept
  rw [World.boot_files] at hload hfiles
  -- of the request only a part may go out
  obtain ⟨ok, n, room, sends, hsend, hn, hnone⟩ := s.sendAll_eq
    (serializeContinueRequest (sessionRequest files m out)) ho
  generalize hs1 : ({ s with
    sent := s.sent ++ (serializeContinueRequest (sessionRequest files m out)).take n
    room := room, sends := sends } : TcpSocket) = s1 at hsend
  have hsent1 : s1.sent =
      s.sent ++ (serializeContinueRequest (sessionRequest files m out)).take n := by rw [← hs1]
  have hin1 : s1.incoming = s.incoming := by rw [← hs1]
  have hopen1 : s1.isOpen = true := by
    rw [← hs1]
    exact ho
  have hstart : (resumed files m out).getD (createCheckpointFromManifest m) =
      startingCheckpoint files m out := rfl
  have hrequest : sendContinueRequest s {
      sessionId := m.sessionId
      totalChunks := m.chunkCount
      missingChunkIndexes := missingChunks (startingCheckpoint files m out) } = (ok, s1) := hsend
  rw [Prog.run_bind, hload]
  simp only [continueSession, hstart, hrequest]
  cases ok with
  | false =>
    refine ⟨.requestNotSent, s1, w1, n, rfl, hsent1, Or.inl ⟨rfl, hfiles, hwrites, ?_, hkept⟩⟩
    intro h
    exact absurd (hnone h).1 Bool.false_ne_true
  | true =>
    obtain ⟨exit, s', w', hrun, hsent, hend⟩ := run_savedSession hl hm {
      totalBytes := bytesForChunks m (requestedChunks files m out)
      totalChunks := UInt64.ofNat (requestedChunks files m out).length } s1 hopen1 hfiles hwrites
      hkept
    rw [hin1] at hend
    refine ⟨exit, s', w', n, hrun, hsent.trans hsent1, Or.inr ⟨hend, ?_⟩⟩
    rw [hsent, hsent1, hn rfl, List.take_length]

theorem run_receiver_rejected (env : Env) (dir : Bytes) (files : Files) (s : TcpSocket)
    (h : (receiveFileManifest s).1 = none) : Prog.run env.exec (receiver dir s) (boot files) =
      ((.manifestNotReceived, (receiveFileManifest s).2), boot files) := by
  generalize hreceived : receiveFileManifest s = received at h ⊢
  obtain ⟨manifest, s1⟩ := received
  obtain rfl := h
  rw [receiver, hreceived]
  rfl

/-- A run that gets a manifest is the session on it, over the rest of the stream. -/
theorem receiver_of_received (dir : Bytes) (s : TcpSocket) (ho : s.isOpen = true)
    (m : FileManifest) (h : (receiveFileManifest s).1 = some m) :
    m.Encodable ∧ (receiveFileManifest s).2.isOpen = true ∧
      receiver dir s = receiverSession dir m (receiveFileManifest s).2 := by
  generalize hreceived : receiveFileManifest s = received at h ⊢
  obtain ⟨manifest, s1⟩ := received
  obtain rfl := h
  obtain ⟨henc, k, hs1⟩ := received_of_receiveFileManifest s s1 m ho hreceived
  refine ⟨henc, by rwa [hs1, TcpSocket.skip_isOpen], ?_⟩
  rw [receiver, hreceived]

/-- A run on a connection that takes all it sends and begins with a manifest: the request goes out,
and the session ends over what follows the manifest. -/
theorem run_receiver_manifest {env : Env} {S : TransferCheckpoint → Bytes → Prop} (dir : Bytes)
    {m : FileManifest} (hm : m.Encodable)
    (hl : SaveLaw env (checkpointPathForOutput (outputPathFor dir m.withoutDigest)) S)
    (files : Files) (s : TcpSocket) (ho : s.isOpen = true) (hroom : s.room = none) (rest : Bytes)
    (hin : s.incoming = serializeFileManifest m ++ rest) :
    SessionEnd S files m.withoutDigest (outputPathFor dir m.withoutDigest) rest
        (Prog.run env.exec (receiver dir s) (boot files)).1.1
        (Prog.run env.exec (receiver dir s) (boot files)).2 ∧
      (Prog.run env.exec (receiver dir s) (boot files)).1.2.sent = s.sent ++
        serializeContinueRequest
          (sessionRequest files m.withoutDigest (outputPathFor dir m.withoutDigest)) := by
  obtain ⟨k, hk⟩ := receive_serializeFileManifest m hm s ho rest hin
  obtain ⟨henc, hopen, hreceiver⟩ := receiver_of_received dir s ho m.withoutDigest (by rw [hk])
  obtain ⟨exit, s', w, n, hrun, -, hend⟩ := run_receiverSession henc.planned dir hl files
    (receiveFileManifest s).2 hopen
  rw [hreceiver, hrun]
  rw [hk, TcpSocket.skip_incoming, TcpSocket.skip_sent, TcpSocket.skip_room, hin,
    List.drop_left] at hend
  rcases hend with ⟨-, -, -, hfull, -⟩ | hend
  · exact absurd hroom hfull
  · exact hend

end PacketBridge
