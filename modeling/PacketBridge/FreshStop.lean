import PacketBridge.CheckpointCrash
import PacketBridge.CheckpointOrder
import PacketBridge.ResumableTransfer

namespace PacketBridge
open Foundations

/-- The output has no more than `N` bytes, and its stream will not bring it beyond them. -/
structure OutputWithin (N : ℕ) (out : Bytes) (w : World) : Prop where
  content : ∀ c, w.files out = some c → c.length ≤ N
  pending : (w.streams out).pending = [] ∨
    (w.streams out).position+(w.streams out).pending.length ≤ N

section Within

variable {N : ℕ} {out : Bytes} {w : World}

theorem OutputWithin.congr {w' : World} (h : OutputWithin N out w) (hs : World.Same out w w') :
    OutputWithin N out w' := by
  refine ⟨?_, ?_⟩
  · rw [hs.files]
    exact h.content
  · rw [hs.streams]
    exact h.pending

theorem OutputWithin.log (h : OutputWithin N out w) (o : FileOp) : OutputWithin N out (w.log o) :=
  ⟨h.content, h.pending⟩

theorem OutputWithin.drain (h : OutputWithin N out w) (n : ℕ) : OutputWithin N out (w.drain out n) := by
  constructor
  · intro c hc
    rw [World.drain_files_self, Option.map_eq_some_iff] at hc
    obtain ⟨old, hold, rfl⟩ := hc
    rcases h.pending with hp | hp
    · rw [hp, List.take_nil, writeAt_nil]
      exact h.content old hold
    · apply length_writeAt_le _ _ _ _ (h.content old hold)
      have := List.length_take_le' n (w.streams out).pending
      omega
  · rw [World.drain_streams_self]
    rcases h.pending with hp | hp
    · left
      simp only [hp, List.drop_nil]
    · right
      simp only [List.length_take, List.length_drop]
      omega

/-- The stream may be put anywhere once it is empty. -/
theorem OutputWithin.flushed (h : OutputWithin N out w) (st : Stream) (hst : st.pending = []) :
    OutputWithin N out ((w.flush out).setStream out st) := by
  refine ⟨(h.drain _).content, ?_⟩
  rw [World.setStream_streams_self]
  exact Or.inl hst

theorem OutputWithin.buffer {data : Bytes} (h : OutputWithin N out w)
    (hp : (w.streams out).pending = []) (hd : (w.streams out).position+data.length ≤ N) :
    OutputWithin N out (w.buffer out data) := by
  refine ⟨h.content, Or.inr ?_⟩
  simp only [World.buffer_streams_self, hp, List.nil_append]
  exact hd

theorem aside_within (env : Env) {α : Type} {p : FileProg α}
    (hp : Prog.Calls (fun o : FileOp => out ∉ o.touches) p) (h : OutputWithin N out w) :
    Prog.Safe env.exec cutAfter (OutputWithin N out) p w fun _ => OutputWithin N out := by
  apply Prog.Calls.safe env.exec hp h
  · intro o t ho ht
    exact ht.congr (exec_same env o t out ho)
  · intro k o t ho ht
    exact ht.congr (cutAfter_same k o t out ho)

end Within

theorem not_mem_touches_read (out p : Bytes) : out ∉ (FileOp.read p).touches := List.not_mem_nil

theorem admits_beside (out : Bytes) :
    AdmitsSave (fun o => out ∉ o.touches) (checkpointPathForOutput out) := by
  have hne : out ≠ checkpointPathForOutput out := Ne.symm (checkpointPath_ne out)
  have hnt : out ≠ temporaryPath (checkpointPathForOutput out) :=
    Ne.symm (temporaryPath_checkpointPath_ne out)
  refine ⟨not_mem_touches hnt rfl, fun _ => not_mem_touches hnt rfl, not_mem_touches hnt rfl,
    not_mem_touches hne rfl, ?_⟩
  intro h
  rcases List.mem_cons.mp h with h | h
  · exact hnt h
  · exact hne (List.mem_singleton.mp h)

variable {env : Env} {m : FileManifest} {out : Bytes} {files : Files}

/-- The seek of a turn brings to the disk what the stream still holds of the chunk before. -/
theorem seekp_within {N : ℕ} {w : World} (hs : env.Steady) (offset : UInt64)
    (h : OutputWithin N out w) :
    Prog.Safe env.exec cutAfter (OutputWithin N out) (call (.seekp out offset)) w
      fun _ t => OutputWithin N out t ∧ ((t.streams out).good = true →
        offset.toNat < maxOffset ∧ (t.streams out).position = offset.toNat ∧
          (t.streams out).pending = []) := by
  have hlog : OutputWithin N out (w.log (.seekp out offset)) := h.log _
  have hf := hs w.history.length (.seekp out offset) rfl
  have hdone : OutputWithin N out (env.exec (.seekp out offset) w).2 ∧
      (((env.exec (.seekp out offset) w).2.streams out).good = true → offset.toNat < maxOffset ∧
        ((env.exec (.seekp out offset) w).2.streams out).position = offset.toNat ∧
        ((env.exec (.seekp out offset) w).2.streams out).pending = []) := by
    cases hg : (w.streams out).good with
    | false =>
      rw [exec_seekp_bad hg]
      refine ⟨hlog, ?_⟩
      intro hgood
      rw [World.log_streams, hg] at hgood
      cases hgood
    | true =>
      by_cases hnear : offset.toNat < maxOffset
      · rw [exec_seekp hf hg hnear]
        refine ⟨hlog.flushed _ rfl, fun _ => ?_⟩
        rw [World.setStream_streams_self]
        exact ⟨hnear, rfl, rfl⟩
      · rw [exec_seekp_far hf hg hnear]
        refine ⟨hlog.flushed _ rfl, ?_⟩
        rw [World.setStream_streams_self]
        intro hgood
        cases hgood
  exact Prog.Safe.perform (fun k => h.drain k) hdone.1 hdone

/-- The write of a turn, into an empty buffer at a place where the chunk ends within the size. -/
theorem write_within {N : ℕ} {w : World} (hs : env.Steady) (h : OutputWithin N out w)
    {data : Bytes} (hg : (w.streams out).good = true) (hpending : (w.streams out).pending = [])
    (hend : (w.streams out).position+data.length ≤ N) :
    Prog.Safe env.exec cutAfter (OutputWithin N out) (call (.write out data)) w
      fun _ => OutputWithin N out := by
  have hlog : OutputWithin N out (w.log (.write out data)) := h.log _
  have hwritten : OutputWithin N out (env.exec (.write out data) w).2 := by
    rw [exec_write (hs _ _ rfl) hg]
    exact (hlog.buffer hpending hend).drain _
  apply Prog.Safe.perform
  · intro k
    rw [cutAfter, if_neg (by rw [hg]; decide)]
    exact (h.buffer hpending hend).drain k
  · exact hwritten
  · exact hwritten

/-- The turns of the loop keep the output within the file size, however late its bytes arrive. -/
theorem within_rules (hs : env.Steady) (hm : m.Planned) (cp : TransferCheckpoint)
    (all : List (UInt64 × Bytes)) :
    LoopRules env m out (checkpointPathForOutput out) cp all (OutputWithin m.fileSize.toNat out)
      (OutputWithin m.fileSize.toNat out) (fun _ => OutputWithin m.fileSize.toNat out)
      (fun _ => OutputWithin m.fileSize.toNat out) where
  ended := fun _ h => h
  ready := fun _ _ h => h
  store := by
    intro done x offset w h hx hoff _
    refine (seekp_within hs offset h).bind ?_
    rintro _ t ⟨ht, hplace⟩
    cases hg : (t.streams out).good with
    | false =>
      refine (write_bad_safe hg ht (ht.log _)).mono (fun _ h => h) ?_
      rintro _ _ ⟨rfl, rfl⟩
      exact ⟨fun hb => absurd hb Bool.false_ne_true, fun _ => ht.log _⟩
    | true =>
      obtain ⟨hnear, hpos, hpending⟩ := hplace hg
      have hend := hx.end_le hm
      rw [← hoff, ← hpos] at hend
      refine (write_within hs ht hg hpending hend).mono (fun _ h => h) ?_
      intro _ t' hwritten
      exact ⟨fun _ => ⟨hnear, hwritten⟩, fun _ => hwritten⟩
  save := by
    intro done w h
    have hsave := aside_within env (calls_saveCheckpoint (admits_beside out)
      (cp.withChunks (done.map Prod.fst))) h
    exact hsave.mono (fun _ h => h) fun _ _ h => ⟨fun _ => h, fun _ => h⟩

/-- Opening and closing the output only make it shorter or bring its buffer to the disk. -/
theorem exec_within {N : ℕ} {w : World} (hs : env.Steady) {o : FileOp}
    (ho : o = .openTrunc out ∨ o = .openInOut out ∨ o = .close out) (h : OutputWithin N out w) :
    OutputWithin N out (env.exec o w).2 ∧ ∀ k, OutputWithin N out (cutAfter k o w) := by
  have hstream (w' : World) (st : Stream) (hc : ∀ c, w'.files out = some c → c.length ≤ N)
      (hst : st.pending = []) : OutputWithin N out (w'.setStream out st) := by
    refine ⟨hc, Or.inl ?_⟩
    rw [World.setStream_streams_self, hst]
  rcases ho with rfl | rfl | rfl
  · refine ⟨?_, fun _ => h⟩
    simp only [Env.exec, FileOp.effect]
    split
    · apply hstream _ _ _ rfl
      intro c hc
      rw [World.setFile_files_self] at hc
      rw [← Option.some.inj hc]
      exact Nat.zero_le N
    · exact hstream _ _ h.content rfl
  · refine ⟨?_, fun _ => h⟩
    simp only [Env.exec, FileOp.effect]
    split
    · exact hstream _ _ h.content rfl
    · exact hstream _ _ h.content rfl
  · refine ⟨?_, fun k => h.drain k⟩
    rw [exec_close (hs _ _ rfl)]
    exact (h.log _).flushed _ rfl

theorem receiveFileChunks_within (hs : env.Steady) (hm : m.Planned) (idxs : List UInt64)
    (cp : TransferCheckpoint) (t : ProgressTracker) (s : TcpSocket) (ho : s.isOpen = true)
    (fresh : Bool) (w : World) (hw : OutputWithin m.fileSize.toNat out w) :
    Prog.Safe env.exec cutAfter (OutputWithin m.fileSize.toNat out)
      (receiveFileChunks s out (checkpointPathForOutput out) m idxs cp t fresh) w
      fun _ => OutputWithin m.fileSize.toNat out := by
  have hcall {o : FileOp} (w : World) (ho : o = .openTrunc out ∨ o = .openInOut out ∨ o = .close out)
      (hw : OutputWithin m.fileSize.toNat out w) :
      Prog.Safe env.exec cutAfter (OutputWithin m.fileSize.toNat out) (call o) w
        fun _ => OutputWithin m.fileSize.toNat out := by
    obtain ⟨hexec, hcut⟩ := exec_within hs ho hw
    exact Prog.Safe.perform hcut hexec hexec
  have hprepare : Prog.Safe env.exec cutAfter (OutputWithin m.fileSize.toNat out)
      (prepareOutputFile out fresh) w fun _ => OutputWithin m.fileSize.toNat out := by
    cases fresh with
    | false => exact aside_within env (calls_fileExists (not_mem_touches_read out) out) hw
    | true =>
      refine (hcall w (Or.inl rfl) hw).bind ?_
      intro create w1 hw1
      refine (hcall w1 (Or.inr (Or.inr rfl)) hw1).bind ?_
      intro _ w2 hw2
      exact Prog.Safe.pure hw2 hw2
  refine hprepare.bind ?_
  intro prepared w1 hw1
  cases prepared with
  | false => exact Prog.Safe.pure hw1 hw1
  | true =>
    rw [if_pos rfl]
    refine (hcall w1 (Or.inr (Or.inl rfl)) hw1).bind ?_
    intro opened w2 hw2
    cases opened with
    | false => exact Prog.Safe.pure hw2 hw2
    | true =>
      rw [if_pos rfl]
      have hloop := (within_rules hs hm cp _).safe hm idxs [] t s w2 ho rfl hw2
      rw [List.map_nil, withChunks_nil] at hloop
      refine hloop.bind ?_
      intro result w3 hw3
      refine (hcall w3 (Or.inr (Or.inr rfl)) hw3).bind ?_
      intro _ w4 hw4
      exact Prog.Safe.pure hw4 hw4

theorem finishSession_within {N : ℕ} (result : Option ReceiverExit × ProgressTracker × TcpSocket)
    (w : World) (hw : OutputWithin N out w) : Prog.Safe env.exec cutAfter (OutputWithin N out)
      (finishSession out (checkpointPathForOutput out) m result) w fun _ => OutputWithin N out := by
  obtain ⟨failed, t, client⟩ := result
  cases failed with
  | some exit => exact Prog.Safe.pure hw hw
  | none =>
    apply aside_within env _ hw
    exact calls_verifyOutput (not_mem_touches_read out) (admits_beside out).remove out m client

theorem continueSession_within (hs : env.Steady) (hm : m.Planned) (s : TcpSocket)
    (ho : s.isOpen = true) (loaded : Option TransferCheckpoint) (w : World)
    (hw : OutputWithin m.fileSize.toNat out w) :
    Prog.Safe env.exec cutAfter (OutputWithin m.fileSize.toNat out)
      (continueSession out m s loaded) w fun _ => OutputWithin m.fileSize.toNat out := by
  have hclient (request : ContinueRequest) : (sendContinueRequest s request).2.isOpen = true :=
    (s.sendAll_sends _ ho).isOpen.trans ho
  simp only [continueSession]
  split
  · refine (aside_within env (calls_saveCheckpoint (admits_beside out) _) hw).bind ?_
    intro saved w1 hw1
    split
    · refine (receiveFileChunks_within hs hm _ _ _ _ (hclient _) _ w1 hw1).bind ?_
      intro result w2 hw2
      exact finishSession_within result w2 hw2
    · exact Prog.Safe.pure hw1 hw1
  · exact Prog.Safe.pure hw hw

/-- A checkpoint that matches the manifest stands beside no output longer than the file. -/
def ResumableWithin (m : FileManifest) (out : Bytes) (files : Files) : Prop :=
  ∀ cp, reloaded files (checkpointPathForOutput out) = some cp →
    checkpointMatchesManifest cp m = true →
    ∀ content, files out = some content → content.length ≤ m.fileSize.toNat

/-- The old checkpoint does not match, and none is no obstacle either. -/
theorem resumableWithin_kept (hold : ∀ cp, reloaded files (checkpointPathForOutput out) = some cp →
      checkpointMatchesManifest cp m = false) {files' : Files}
    (h : files' (checkpointPathForOutput out) = files (checkpointPathForOutput out) ∨
      files' (checkpointPathForOutput out) = none) : ResumableWithin m out files' := by
  intro cp hcp hmatch
  rw [reloaded_eq] at hcp
  rcases h with h | h
  · rw [h, ← reloaded_eq] at hcp
    rw [hold cp hcp] at hmatch
    cases hmatch
  · rw [h] at hcp
    cases hcp

/-- Beside the fresh checkpoint a longer output is one too long, unless that checkpoint cannot be
read back. -/
theorem resumableWithin_fresh_iff {files' : Files} {old : Bytes}
    (hckpt : files' (checkpointPathForOutput out) =
      some (checkpointText (createCheckpointFromManifest m)))
    (hout : files' out = some old) (hlong : m.fileSize.toNat < old.length) :
    ResumableWithin m out files' ↔ newline ∈ m.filename := by
  constructor
  · intro h
    by_contra hn
    have hread : reloaded files' (checkpointPathForOutput out) =
        some (createCheckpointFromManifest m) := by
      rw [reloaded_eq, hckpt, Option.bind_some]
      exact parseCheckpoint_of_no_newline _ hn
    exact absurd (h _ hread (createCheckpoint_matches m) old hout) (not_le.mpr hlong)
  · intro hn cp hcp hmatch
    rw [reloaded_eq, hckpt, Option.bind_some] at hcp
    have hname := parseCheckpoint_no_newline _ cp hcp
    rw [((checkpointMatchesManifest_iff cp m).mp hmatch).1] at hname
    exact absurd hn hname

/-- Once the opening that empties the output has worked, what the output held before is gone. -/
theorem crash_receiveFileChunks_emptied {α : Type} (k n : ℕ) (s : TcpSocket) (ckpt : Bytes)
    (idxs : List UInt64) (cp : TransferCheckpoint) (t : ProgressTracker)
    (g : Option ReceiverExit × ProgressTracker × TcpSocket → FileProg α) (w : World)
    (hf : env.fault w.history.length (.openTrunc out) = none) :
    Prog.crash env.exec (cutAfter k) (n+1) (receiveFileChunks s out ckpt m idxs cp t true >>= g) w =
      Prog.crash env.exec (cutAfter k) (n+1) (receiveFileChunks s out ckpt m idxs cp t true >>= g)
        (w.setFile out (some [])) := by
  obtain ⟨K, hK⟩ : ∃ K : Bool → FileProg α,
      receiveFileChunks s out ckpt m idxs cp t true >>= g = Prog.call (.openTrunc out) K :=
    ⟨_, rfl⟩
  have hexec : env.exec (.openTrunc out) (w.setFile out (some [])) =
      env.exec (.openTrunc out) w := by
    rw [exec_openTrunc (w := w) hf, exec_openTrunc (w := w.setFile out (some [])) hf]
    simp only [World.log, World.setFile, World.setStream, Function.update_idem]
  rw [hK, Prog.crash, Prog.crash, hexec]

/-- When that opening fails the transfer ends with the files as they are. -/
theorem receiveFileChunks_notEmptied (s : TcpSocket) (ckpt : Bytes)
    (idxs : List UInt64) (cp : TransferCheckpoint) (t : ProgressTracker) (w : World)
    (hf : env.fault w.history.length (.openTrunc out) ≠ none) :
    Prog.Safe env.exec cutAfter (fun w' => ∀ q, w'.files q = w.files q)
      (receiveFileChunks s out ckpt m idxs cp t true >>= finishSession out ckpt m) w
      fun _ _ => True := by
  rw [receiveFileChunks, prepareOutputFile, if_pos rfl, Prog.bind_assoc, Prog.bind_assoc]
  have hopen : Prog.Safe env.exec cutAfter (fun w' => ∀ q, w'.files q = w.files q)
      (call (.openTrunc out)) w fun create w' =>
        create = false ∧ (∀ q, w'.files q = w.files q) ∧ w'.streams out = {} := by
    have hexec := exec_openTrunc_fault hf
    apply Prog.Safe.perform
    · intro k q
      rfl
    · intro q
      rw [hexec]
      rfl
    · rw [hexec]
      exact ⟨rfl, fun _ => rfl, World.setStream_streams_self _ _ _⟩
  refine hopen.bind ?_
  rintro create w1 ⟨rfl, hfiles, hclosed⟩
  have hclose : Prog.Safe env.exec cutAfter (fun w' => ∀ q, w'.files q = w.files q)
      (call (.close out)) w1 fun _ w' => ∀ q, w'.files q = w.files q := by
    have hexec : ∀ q, (env.exec (.close out) w1).2.files q = w.files q := by
      intro q
      rw [← hfiles q]
      by_cases hq : q = out
      · rw [hq]
        exact close_of_closed hclosed
      · exact (exec_same env (.close out) w1 q (not_mem_touches hq rfl)).files
    apply Prog.Safe.perform
    · intro k q
      rw [← hfiles q]
      by_cases hq : q = out
      · rw [hq]
        exact World.drain_files_settled (by rw [hclosed]) k
      · exact (cutAfter_same k (.close out) w1 q (not_mem_touches hq rfl)).files
    · exact hexec
    · exact hexec
  rw [Prog.bind_assoc]
  refine hclose.bind ?_
  intro _ w2 hw2
  exact Prog.Safe.pure hw2 trivial

/-- A session over an existing output, once its two files are read. -/
theorem crash_receiverSession_read (hs : env.Steady) (dir : Bytes) (m : FileManifest)
    (files : Files) (s : TcpSocket) (old : Bytes) (hold : files (outputPathFor dir m) = some old) :
    (∀ k n, n < 2 → ∀ q, (Prog.crash env.exec (cutAfter k) n (receiverSession dir m s)
        (boot files)).files q = files q) ∧
      ∃ w : World, w.files = files ∧ w.streams = (fun _ => {}) ∧ w.history.length = 2 ∧
        ∀ k n, Prog.crash env.exec (cutAfter k) (2+n) (receiverSession dir m s) (boot files) =
          Prog.crash env.exec (cutAfter k) n
            (continueSession (outputPathFor dir m) m s (resumed files m (outputPathFor dir m))) w := by
  rw [receiverSession_eq]
  generalize outputPathFor dir m = out at hold ⊢
  obtain ⟨w, hrun, hfiles, hstreams, -, hlen⟩ :=
    run_loadedCheckpoint (fun n p => hs n (.read p) rfl) m out (boot files)
  rw [World.boot_files, hold, Option.isSome_some, if_pos rfl, World.boot_history] at hlen
  have hsteps : (loadedCheckpoint out (checkpointPathForOutput out) m).steps env.exec
      (boot files) = 2 := by
    have h := history_length_run env (loadedCheckpoint out (checkpointPathForOutput out) m)
      (boot files)
    rw [hrun, hlen, World.boot_history] at h
    simp only [List.length_nil, Nat.zero_add] at h
    exact h.symm
  -- stopped at one of the two reads, or behind them
  constructor
  · intro k n hn q
    rw [Prog.crash_bind_of_lt _ _ _ _ _ _ (by rw [hsteps]; exact hn)]
    exact ((loadedCheckpoint_safe hs files m out).always k n q).files
  · refine ⟨w, hfiles, hstreams, hlen, ?_⟩
    intro k n
    have h := Prog.crash_bind_add env.exec (cutAfter k)
      (loadedCheckpoint out (checkpointPathForOutput out) m) (continueSession out m s) n (boot files)
    rwa [hsteps, hrun] at h

/-- The rest of a fresh session whose request goes out, on a system where its first save works: up
to the save, and behind it. -/
theorem crash_continueSession_fresh (hs : env.Steady) (m : FileManifest) (s : TcpSocket) (w : World)
    (hsent : (sendContinueRequest s {
      sessionId := m.sessionId
      totalChunks := m.chunkCount
      missingChunkIndexes := missingChunks (createCheckpointFromManifest m) }).1 = true)
    (hopen : env.fault w.history.length
      (.openTrunc (temporaryPath (checkpointPathForOutput out))) = none)
    (hrename : env.fault (w.history.length+4) (.rename
      (temporaryPath (checkpointPathForOutput out)) (checkpointPathForOutput out)) = none) :
    (∀ k n, n < 5 → Prog.crash env.exec (cutAfter k) n (continueSession out m s none) w =
        Prog.crash env.exec (cutAfter k) n
          (saveCheckpoint (checkpointPathForOutput out) (createCheckpointFromManifest m)) w) ∧
      ∃ w' : World, w'.history.length = w.history.length+5 ∧
        w'.files (checkpointPathForOutput out) =
          some (checkpointText (createCheckpointFromManifest m)) ∧ World.Same out w w' ∧
        ∃ client t, (s.isOpen = true → client.isOpen = true) ∧
          ∀ k n, Prog.crash env.exec (cutAfter k) (5+n) (continueSession out m s none) w =
            Prog.crash env.exec (cutAfter k) n
              (receiveFileChunks client out (checkpointPathForOutput out) m
                (missingChunks (createCheckpointFromManifest m)) (createCheckpointFromManifest m) t
                true >>= finishSession out (checkpointPathForOutput out) m) w' := by
  have hend := (saveCheckpoint_safe hs (checkpointPathForOutput out)
    (createCheckpointFromManifest m) w).returns
  have hok := hend.ok_iff.mpr ⟨hopen, hrename⟩
  have hlen := history_length_run env
    (saveCheckpoint (checkpointPathForOutput out) (createCheckpointFromManifest m)) w
  rw [hend.calls hok] at hlen
  have hsteps : (saveCheckpoint (checkpointPathForOutput out)
      (createCheckpointFromManifest m)).steps env.exec w = 5 := by omega
  have hsame := hend.saving.same out (Ne.symm (checkpointPath_ne out))
    (Ne.symm (temporaryPath_checkpointPath_ne out))
  simp only [continueSession, Option.getD_none, hsent, ↓reduceIte]
  have hclient : s.isOpen = true → (sendContinueRequest s {
      sessionId := m.sessionId
      totalChunks := m.chunkCount
      missingChunkIndexes := missingChunks (createCheckpointFromManifest m) }).2.isOpen = true := by
    intro ho
    exact (s.sendAll_sends _ ho).isOpen.trans ho
  generalize (sendContinueRequest s _).2 = client at hclient ⊢
  -- stopped inside the save, or behind its five calls
  constructor
  · intro k n hn
    exact Prog.crash_bind_of_lt _ _ _ _ _ _ (by rw [hsteps]; exact hn)
  · refine ⟨_, hend.calls hok, (hend.saved hok).1, hsame, client, {
      totalBytes := bytesForChunks m (missingChunks (createCheckpointFromManifest m))
      totalChunks := UInt64.ofNat (missingChunks (createCheckpointFromManifest m)).length },
      hclient, ?_⟩
    intro k n
    rw [← hsteps, Prog.crash_bind_add, if_pos hok]
    rfl

/-- A save that fails leaves the old checkpoint or none, wherever it is stopped. -/
theorem crash_continueSession_notSaved (hs : env.Steady) (m : FileManifest) (s : TcpSocket)
    (w : World)
    (hf : env.fault w.history.length
        (.openTrunc (temporaryPath (checkpointPathForOutput out))) ≠ none ∨
      env.fault (w.history.length+4) (.rename (temporaryPath (checkpointPathForOutput out))
        (checkpointPathForOutput out)) ≠ none) (k n : ℕ) :
    (Prog.crash env.exec (cutAfter k) n (continueSession out m s none) w).files
        (checkpointPathForOutput out) = w.files (checkpointPathForOutput out) ∨
      (Prog.crash env.exec (cutAfter k) n (continueSession out m s none) w).files
        (checkpointPathForOutput out) = none := by
  have hsave : Prog.Safe env.exec cutAfter
      (fun t => t.files (checkpointPathForOutput out) = w.files (checkpointPathForOutput out) ∨
        t.files (checkpointPathForOutput out) = none)
      (saveCheckpoint (checkpointPathForOutput out) (createCheckpointFromManifest m)) w
      fun ok _ => ok = false := by
    refine ⟨?_, ?_⟩
    · intro k n
      rw [crash_saveCheckpoint hs]
      split
      · exact Or.inl rfl
      · rename_i hopen
        rw [if_pos (Or.inr (hf.resolve_left fun h => hopen (Or.inl h)))]
        exact Or.inr rfl
    · have hiff := (saveCheckpoint_safe hs (checkpointPathForOutput out)
        (createCheckpointFromManifest m) w).returns.ok_iff
      rw [← Bool.not_eq_true, hiff, not_and_or]
      exact hf
  simp only [continueSession, Option.getD_none]
  split
  · have hend := (saveCheckpoint_safe hs (checkpointPathForOutput out)
      (createCheckpointFromManifest m) w).returns
    have hfinal : (Prog.run env.exec (saveCheckpoint (checkpointPathForOutput out)
        (createCheckpointFromManifest m)) w).2.files (checkpointPathForOutput out) =
          w.files (checkpointPathForOutput out) ∨
        (Prog.run env.exec (saveCheckpoint (checkpointPathForOutput out)
          (createCheckpointFromManifest m)) w).2.files (checkpointPathForOutput out) = none :=
      hend.notSaved hsave.returns
    rcases Prog.crash_bind env.exec (cutAfter k) _ _ n w with h | ⟨j, h⟩
    · rw [h]
      exact hsave.always k n
    · rw [h, hsave.returns, if_neg Bool.false_ne_true, Prog.crash_pure]
      exact hfinal
  · rw [Prog.crash_pure]
    exact Or.inl rfl

theorem resumed_eq_none (hfresh : ∀ cp, reloaded files (checkpointPathForOutput out) = some cp →
    checkpointMatchesManifest cp m = false) : resumed files m out = none := by
  by_contra h
  obtain ⟨cp, hcp⟩ := Option.ne_none_iff_exists'.mp h
  obtain ⟨-, ⟨text, htext, hparse⟩, hmatch⟩ := resumed_eq_some.mp hcp
  have hread : reloaded files (checkpointPathForOutput out) = some cp := by
    rw [reloaded_eq, htext, Option.bind_some, hparse]
  rw [hfresh cp hread] at hmatch
  cases hmatch

/-- A session that finds no output beyond the file size leaves none, wherever it is stopped. -/
theorem receiverSession_within (hs : env.Steady) (hm : m.Planned) (dir : Bytes) (s : TcpSocket)
    (ho : s.isOpen = true)
    (hold : ∀ old, files (outputPathFor dir m) = some old → old.length ≤ m.fileSize.toNat) :
    Prog.Safe env.exec cutAfter (OutputWithin m.fileSize.toNat (outputPathFor dir m))
      (receiverSession dir m s) (boot files)
      fun _ => OutputWithin m.fileSize.toNat (outputPathFor dir m) := by
  rw [receiverSession_eq]
  generalize outputPathFor dir m = out at hold ⊢
  have hstart : OutputWithin m.fileSize.toNat out (boot files) := ⟨hold, Or.inl rfl⟩
  refine (aside_within env (calls_loadedCheckpoint (not_mem_touches_read out) out _ m)
    hstart).bind ?_
  intro loaded w hw
  exact continueSession_within hs hm s ho loaded w hw

/-- Behind the save: the longer output stands beside the fresh checkpoint until it is emptied. -/
theorem receiveFileChunks_bound_iff (hs : env.Steady) (hm : m.Planned) (s : TcpSocket)
    (ho : s.isOpen = true) (t : ProgressTracker) (w : World) (old : Bytes)
    (hckpt : w.files (checkpointPathForOutput out) =
      some (checkpointText (createCheckpointFromManifest m)))
    (hout : w.files out = some old) (hlong : m.fileSize.toNat < old.length)
    (hclosed : w.streams out = {}) (k n : ℕ) :
    ResumableWithin m out (Prog.crash env.exec (cutAfter k) n
      (receiveFileChunks s out (checkpointPathForOutput out) m
        (missingChunks (createCheckpointFromManifest m)) (createCheckpointFromManifest m) t true >>=
        finishSession out (checkpointPathForOutput out) m) w).files ↔
      newline ∈ m.filename ∨ (0 < n ∧ env.fault w.history.length (.openTrunc out) = none) := by
  by_cases hempty : 0 < n ∧ env.fault w.history.length (.openTrunc out) = none
  · -- the output has been emptied, and what is written to it later stays within the size
    refine iff_of_true ?_ (Or.inr hempty)
    obtain ⟨j, rfl⟩ := Nat.exists_eq_succ_of_ne_zero (Nat.ne_of_gt hempty.1)
    rw [crash_receiveFileChunks_emptied k j s _ _ _ t _ w hempty.2]
    have hstart : OutputWithin m.fileSize.toNat out (w.setFile out (some [])) := by
      refine ⟨?_, Or.inl ?_⟩
      · intro c hc
        rw [World.setFile_files_self] at hc
        rw [← Option.some.inj hc]
        exact Nat.zero_le _
      · rw [World.setFile_streams, hclosed]
    have hsafe := (receiveFileChunks_within hs hm (missingChunks (createCheckpointFromManifest m))
      (createCheckpointFromManifest m) t s ho true _ hstart).bind fun result w hw =>
        finishSession_within (m := m) result w hw
    intro cp _ _ content hcontent
    exact (hsafe.always k (j+1)).content content hcontent
  · -- the old output is still there
    rw [or_iff_left hempty]
    have hkept : ∀ q, (Prog.crash env.exec (cutAfter k) n
        (receiveFileChunks s out (checkpointPathForOutput out) m
          (missingChunks (createCheckpointFromManifest m)) (createCheckpointFromManifest m) t
          true >>= finishSession out (checkpointPathForOutput out) m) w).files q = w.files q := by
      cases n with
      | zero =>
        intro q
        rfl
      | succ n =>
        have hf : env.fault w.history.length (.openTrunc out) ≠ none :=
          fun h => hempty ⟨Nat.succ_pos n, h⟩
        exact (receiveFileChunks_notEmptied s _ _ _ t w hf).always k (n+1)
    exact resumableWithin_fresh_iff ((hkept _).trans hckpt) ((hkept _).trans hout) hlong

/-- From the sending of the request on, over a longer output: the save takes five calls. -/
theorem continueSession_bound_iff (hs : env.Steady) (hm : m.Planned)
    (hfresh : ∀ cp, reloaded files (checkpointPathForOutput out) = some cp →
      checkpointMatchesManifest cp m = false) (s : TcpSocket) (ho : s.isOpen = true) (w : World)
    (hfiles : w.files = files) (hstreams : w.streams = fun _ => {}) (old : Bytes)
    (hold : files out = some old) (hlong : m.fileSize.toNat < old.length) (k n : ℕ) :
    ResumableWithin m out
        (Prog.crash env.exec (cutAfter k) n (continueSession out m s none) w).files ↔
      newline ∈ m.filename ∨
      (sendContinueRequest s {
        sessionId := m.sessionId
        totalChunks := m.chunkCount
        missingChunkIndexes := missingChunks (createCheckpointFromManifest m) }).1 = false ∨
      env.fault w.history.length
        (.openTrunc (temporaryPath (checkpointPathForOutput out))) ≠ none ∨
      env.fault (w.history.length+4) (.rename (temporaryPath (checkpointPathForOutput out))
        (checkpointPathForOutput out)) ≠ none ∨
      n < 5 ∨ (5 < n ∧ env.fault (w.history.length+5) (.openTrunc out) = none) := by
  cases hsent : (sendContinueRequest s {
    sessionId := m.sessionId
    totalChunks := m.chunkCount
    missingChunkIndexes := missingChunks (createCheckpointFromManifest m) }).1 with
  | false =>
    refine iff_of_true ?_ (Or.inr (Or.inl rfl))
    simp only [continueSession, Option.getD_none, hsent, Bool.false_eq_true, ↓reduceIte,
      Prog.crash_pure]
    exact resumableWithin_kept hfresh (Or.inl (by rw [hfiles]))
  | true =>
    by_cases hsave : env.fault w.history.length
        (.openTrunc (temporaryPath (checkpointPathForOutput out))) ≠ none ∨
        env.fault (w.history.length+4) (.rename (temporaryPath (checkpointPathForOutput out))
          (checkpointPathForOutput out)) ≠ none
    · -- the session ends with the save that fails
      refine iff_of_true ?_ ?_
      · apply resumableWithin_kept hfresh
        rw [← hfiles]
        exact crash_continueSession_notSaved hs m s w hsave k n
      · rcases hsave with h | h
        · exact Or.inr (Or.inr (Or.inl h))
        · exact Or.inr (Or.inr (Or.inr (Or.inl h)))
    · rw [not_or, not_not, not_not] at hsave
      obtain ⟨hopen, hrename⟩ := hsave
      obtain ⟨hbegun, w', hhist, hckpt, hsame, client, t, hclient, hafter⟩ :=
        crash_continueSession_fresh hs m s w hsent hopen hrename
      by_cases hn5 : n < 5
      · refine iff_of_true ?_ (Or.inr (Or.inr (Or.inr (Or.inr (Or.inl hn5)))))
        rw [hbegun k n hn5]
        apply resumableWithin_kept hfresh
        rw [crash_saveCheckpoint hs, hfiles]
        split
        · exact Or.inl rfl
        · rename_i hlate
          rw [not_or] at hlate
          rw [if_pos (Or.inl (by omega))]
          exact Or.inr rfl
      · obtain ⟨n, rfl⟩ := Nat.exists_eq_add_of_le (not_lt.mp hn5)
        have hbound := receiveFileChunks_bound_iff hs hm client (hclient ho) t w' old hckpt
          (by rw [hsame.files, hfiles, hold]) hlong (by rw [hsame.streams, hstreams]) k n
        have hpos : 5 < 5+n ↔ 0 < n := by omega
        rw [hafter, hbound, hhist]
        simp only [hopen, hrename, hn5, hpos, ne_eq, not_true_eq_false, Bool.true_eq_false,
          false_or]

/-- A run that starts anew and is stopped behind `n` calls has no old output that is too long, or has
not put the fresh checkpoint in place, or has emptied the old output. -/
def OldOutputGone (env : Env) (dir : Bytes) (files : Files) (s : TcpSocket) (m : FileManifest)
    (n : ℕ) : Prop :=
  (∀ old, files (outputPathFor dir m) = some old → old.length ≤ m.fileSize.toNat) ∨
  newline ∈ m.filename ∨
  (sendContinueRequest (receiveFileManifest s).2
    (sessionRequest files m (outputPathFor dir m))).1 = false ∨
  env.fault 2 (.openTrunc (temporaryPath (checkpointPathForOutput (outputPathFor dir m)))) ≠ none ∨
  env.fault 6 (.rename (temporaryPath (checkpointPathForOutput (outputPathFor dir m)))
    (checkpointPathForOutput (outputPathFor dir m))) ≠ none ∨
  n < 7 ∨ (7 < n ∧ env.fault 7 (.openTrunc (outputPathFor dir m)) = none)

/-- A fresh transfer that is stopped leaves a matching checkpoint beside an output that is too long
exactly when the output was too long and is not emptied yet, or cannot be emptied, when the fresh
checkpoint has taken its place. -/
theorem stopped_within_iff (dir : Bytes) (files : Files) (s : TcpSocket) (ho : s.isOpen = true)
    (m : FileManifest) (hm : (receiveFileManifest s).1 = some m)
    (hfresh : ∀ cp, reloaded files (checkpointPathForOutput (outputPathFor dir m)) = some cp →
      checkpointMatchesManifest cp m = false) (env : Env) (hs : env.Steady) (k n : ℕ) :
    ResumableWithin m (outputPathFor dir m)
        (Prog.crash env.exec (cutAfter k) n (receiver dir s) (boot files)).files ↔
      OldOutputGone env dir files s m n := by
  rw [OldOutputGone]
  obtain ⟨henc, hopen, hreceiver⟩ := receiver_of_received dir s ho m hm
  rw [hreceiver]
  generalize (receiveFileManifest s).2 = s1 at hopen
  by_cases hshort : ∀ old, files (outputPathFor dir m) = some old →
      old.length ≤ m.fileSize.toNat
  · -- the output is within the size from the start
    refine iff_of_true ?_ (Or.inl hshort)
    have hsafe := receiverSession_within hs henc.planned dir s1 hopen hshort
    intro cp _ _ content hcontent
    exact (hsafe.always k n).content content hcontent
  · have hlong := hshort
    rw [not_forall] at hlong
    obtain ⟨old, hold⟩ := hlong
    rw [Classical.not_imp, not_le] at hold
    obtain ⟨hold, hlong⟩ := hold
    -- the two files are read first, then five calls save the fresh checkpoint
    obtain ⟨hbefore, w, hfiles, hstreams, hhist, hbehind⟩ :=
      crash_receiverSession_read hs dir m files s1 old hold
    have hnone := resumed_eq_none hfresh
    by_cases hn2 : n < 2
    · refine iff_of_true (resumableWithin_kept hfresh (Or.inl (hbefore k n hn2 _))) ?_
      exact Or.inr (Or.inr (Or.inr (Or.inr (Or.inr (Or.inl (by omega))))))
    · obtain ⟨n, rfl⟩ := Nat.exists_eq_add_of_le (not_lt.mp hn2)
      have hrequest : sessionRequest files m (outputPathFor dir m) = {
          sessionId := m.sessionId
          totalChunks := m.chunkCount
          missingChunkIndexes := missingChunks (createCheckpointFromManifest m) } := by
        rw [sessionRequest, requestedChunks, startingCheckpoint, hnone, Option.getD_none]
      have hbound := continueSession_bound_iff hs henc.planned hfresh s1 hopen w hfiles hstreams
        old hold hlong k n
      rw [hhist] at hbound
      have hlt : 2+n < 7 ↔ n < 5 := by omega
      have hgt : 7 < 2+n ↔ 5 < n := by omega
      rw [hbehind, hnone, hbound, hrequest, hlt, hgt]
      exact (or_iff_right hshort).symm

/-- A checkpoint read at such a point is the one found before, or it lists chunks the run started with
and chunks of the file that stand in the output. -/
theorem NotAhead.listed {content : Bytes} {chunks : List (UInt64 × Bytes)} {w : World}
    {cp : TransferCheckpoint} (h : NotAhead files m out chunks w)
    (hx : ∀ x ∈ chunks, x.2 = fileChunk m content x.1)
    (hcp : reloaded w.files (checkpointPathForOutput out) = some cp) :
    w.files (checkpointPathForOutput out) = files (checkpointPathForOutput out) ∨
      ∀ i ∈ cp.completedChunks, i ∈ (startingCheckpoint files m out).completedChunks ∨
        ∃ c, w.files out = some c ∧ HoldsAt c (m.chunkOffset i) (fileChunk m content i) := by
  rw [reloaded_eq] at hcp
  rcases h with ⟨-, hsame⟩ | hnone | ⟨taken, hfront, htext, htaken⟩
  · exact Or.inl hsame
  · rw [hnone] at hcp
    cases hcp
  · right
    intro i hi
    rw [htext, Option.bind_some] at hcp
    rw [fields_of_parseCheckpoint _ _ hcp] at hi
    rcases (mem_withChunks _ _ i).mp hi with hin | hin
    · obtain ⟨x, hmem, rfl⟩ := List.mem_map.mp hin
      obtain ⟨c, hc, hholds⟩ := htaken x hmem
      rw [hx x (hfront.subset hmem)] at hholds
      exact Or.inr ⟨c, hc, hholds⟩
    · exact Or.inl hin

/-- Every later uncut run against an honest sender of the file ends with success and the file. -/
def CompletesLater (dir filePath content : Bytes) (files : Files) : Prop :=
  ∀ env a b, UncutRun env dir files filePath content a b →
    (Prog.run env.exec (receiver dir b) (boot files)).1.1.code = 0 ∧
      (Prog.run env.exec (receiver dir b) (boot files)).2.files
        (outputPathFor dir (senderManifest filePath content)) = some content

section Later

variable {dir filePath content : Bytes} {s : TcpSocket}

/-- The state in which a fresh transfer of the file is stopped can be trusted, if the output is short
enough, the chunks that came are those of the file, and their writes went through. -/
theorem trusted_of_stopped (hc : Sendable content) (hs : env.Steady) (ho : s.isOpen = true)
    (hm : (receiveFileManifest s).1 = some (senderManifest filePath content))
    (hfresh : ∀ cp, reloaded files (checkpointPathForOutput
      (outputPathFor dir (senderManifest filePath content))) = some cp →
        checkpointMatchesManifest cp (senderManifest filePath content) = false)
    (hx : ∀ x ∈ (acceptChunks (senderManifest filePath content)
      (requestedChunks files (senderManifest filePath content)
        (outputPathFor dir (senderManifest filePath content)))
      (receiveFileManifest s).2.incoming).chunks,
        x.2 = fileChunk (senderManifest filePath content) content x.1)
    (hthrough : env.WritesThrough (outputPathFor dir (senderManifest filePath content))
      (acceptChunks (senderManifest filePath content)
        (requestedChunks files (senderManifest filePath content)
          (outputPathFor dir (senderManifest filePath content)))
        (receiveFileManifest s).2.incoming).chunks) (k n : ℕ)
    (hwithin : ResumableWithin (senderManifest filePath content)
      (outputPathFor dir (senderManifest filePath content))
      (Prog.crash env.exec (cutAfter k) n (receiver dir s) (boot files)).files) :
    Trusted (Prog.crash env.exec (cutAfter k) n (receiver dir s) (boot files)).files
      (senderManifest filePath content) (outputPathFor dir (senderManifest filePath content))
      content := by
  obtain ⟨henc, hopen, hreceiver⟩ := receiver_of_received dir s ho _ hm
  rw [hreceiver] at hwithin ⊢
  have hnot := (receiverSession_notAhead hs dir _ henc.planned files _ hopen hthrough).always k n
  have hsize : (senderManifest filePath content).fileSize.toNat = content.length :=
    hc.fileSize_toNat
  generalize Prog.crash env.exec (cutAfter k) n _ (boot files) = w at hnot hwithin ⊢
  generalize senderManifest filePath content = m at hfresh hx hnot hwithin hsize ⊢
  generalize outputPathFor dir m = out at hfresh hx hnot hwithin ⊢
  intro cp c hres hcontent
  obtain ⟨-, ⟨text, htext, hparse⟩, hmatch⟩ := resumed_eq_some.mp hres
  have hread : reloaded w.files (checkpointPathForOutput out) = some cp := by
    rw [reloaded_eq, htext, Option.bind_some, hparse]
  refine ⟨hsize ▸ hwithin cp hread hmatch c hcontent, ?_⟩
  intro i hi
  rcases hnot.listed hx hread with hsame | hlisted
  · -- the checkpoint found before is not one of this file
    rw [reloaded_eq, hsame, ← reloaded_eq] at hread
    rw [hfresh cp hread] at hmatch
    cases hmatch
  · rcases hlisted i hi with hin | ⟨c', hc', hholds⟩
    · rw [startingCheckpoint, resumed_eq_none hfresh] at hin
      exact absurd hin (AscSet.not_mem_empty i)
    · rw [hcontent, Option.some.injEq] at hc'
      rwa [hc']

/-- Over an output that is too long a transfer that resumes cannot end with the file. -/
theorem UncutRun.ne_of_longer {dir filePath content old : Bytes} {a b : TcpSocket}
    {cp : TransferCheckpoint} (h : UncutRun env dir files filePath content a b)
    (hres : resumed files (senderManifest filePath content)
      (outputPathFor dir (senderManifest filePath content)) = some cp)
    (hold : files (outputPathFor dir (senderManifest filePath content)) = some old)
    (hlong : content.length < old.length) :
    (Prog.run env.exec (receiver dir b) (boot files)).2.files
      (outputPathFor dir (senderManifest filePath content)) ≠ some content := by
  have hout := h.session.output
  have hbase : startingOutput files (senderManifest filePath content)
      (outputPathFor dir (senderManifest filePath content)) = old := by
    rw [startingOutput, hres, hold]
    rfl
  rw [hbase] at hout
  have hle := length_le_storeChunks (senderManifest filePath content) old (acceptChunks
    (senderManifest filePath content) (requestedChunks files (senderManifest filePath content)
      (outputPathFor dir (senderManifest filePath content)))
    (answerStream files (senderManifest filePath content)
      (outputPathFor dir (senderManifest filePath content)) content)).chunks
  rw [hout]
  intro heq
  rw [Option.some.inj heq] at hle
  omega

/-- Nor do all later runs, where the state is resumable over such an output. -/
theorem CompletesLater.within {files : Files} (h : CompletesLater dir filePath content files)
    (hc : Sendable content)
    (hn : (senderManifest filePath content).filename.length ≤ kMaxFilenameLength)
    (hlimit : (senderManifest filePath content).chunkCount.toNat ≤ 1000000) :
    ResumableWithin (senderManifest filePath content)
      (outputPathFor dir (senderManifest filePath content)) files := by
  intro cp hread hmatch old hold
  have hsize : (senderManifest filePath content).fileSize.toNat = content.length :=
    hc.fileSize_toNat
  rw [hsize]
  by_contra hlong
  obtain ⟨a, b, hu⟩ := uncutRun_exists Env.direct_reliable dir files filePath hc hn
    (requestedChunks_le_limit hlimit)
  rw [reloaded_eq, Option.bind_eq_some_iff] at hread
  have hres := resumed_eq_some.mpr ⟨⟨old, hold⟩, hread, hmatch⟩
  exact hu.ne_of_longer hres hold (not_le.mp hlong) (h _ a b hu).2

end Later

/-- Where a fresh transfer is stopped: it leaves a matching checkpoint beside an output that is too
long exactly when the old output is not gone. Only then do later uncut runs end with the file; and
they do so then, if the chunks that came are those of the file and their writes went through. -/
theorem fresh_stop_iff (dir : Bytes) (files : Files) (s : TcpSocket) (ho : s.isOpen = true)
    (m : FileManifest) (hm : (receiveFileManifest s).1 = some m)
    (hfresh : ∀ cp, reloaded files (checkpointPathForOutput (outputPathFor dir m)) = some cp →
      checkpointMatchesManifest cp m = false) (env : Env) (hs : env.Steady) (k n : ℕ) :
    let stopped := (Prog.crash env.exec (cutAfter k) n (receiver dir s) (boot files)).files
    let came := (acceptChunks m (requestedChunks files m (outputPathFor dir m))
      (receiveFileManifest s).2.incoming).chunks
    (ResumableWithin m (outputPathFor dir m) stopped ↔ OldOutputGone env dir files s m n) ∧
      ∀ filePath content, m = senderManifest filePath content → Sendable content →
        m.chunkCount.toNat ≤ 1000000 →
        (CompletesLater dir filePath content stopped → OldOutputGone env dir files s m n) ∧
        ((∀ x ∈ came, x.2 = fileChunk m content x.1) →
          env.WritesThrough (outputPathFor dir m) came →
          (CompletesLater dir filePath content stopped ↔ OldOutputGone env dir files s m n)) := by
  intro stopped came
  have hbound := stopped_within_iff dir files s ho m hm hfresh env hs k n
  refine ⟨hbound, ?_⟩
  rintro filePath content rfl hc hlimit
  obtain ⟨henc, -, -⟩ := receiver_of_received dir s ho _ hm
  have hneeds : CompletesLater dir filePath content stopped →
      OldOutputGone env dir files s (senderManifest filePath content) n :=
    fun h => hbound.mp (h.within hc henc.nameShort hlimit)
  refine ⟨hneeds, ?_⟩
  intro hx hthrough
  refine ⟨hneeds, ?_⟩
  intro hgone env' a b hu
  have htrust := trusted_of_stopped hc hs ho hm hfresh hx hthrough k n (hbound.mpr hgone)
  obtain ⟨hcode, hout, -⟩ := hu.completes hlimit htrust
  exact ⟨hcode, hout⟩

def twoByteOutput : Files :=
  Function.update emptyDirectory (outputPathFor (ascii "in") (senderManifest (ascii "a") [1]))
    (some [0, 0])

theorem twoByteOutput_fresh : reloaded twoByteOutput (checkpointPathForOutput
    (outputPathFor (ascii "in") (senderManifest (ascii "a") [1]))) = none := by
  rw [reloaded_eq, twoByteOutput, Function.update_of_ne (checkpointPath_ne _)]
  rfl

def byteChunkOnly : TcpSocket :=
  { incoming := serializeFileManifest (senderManifest (ascii "a") [1]) ++
      (serializeChunkHeader { chunkIndex := 0, byteOffset := 0, payloadSize := 1 } ++ [1]) }

/-- The receiver is killed behind the save that lists the chunk, over what was the old output. -/
theorem fresh_stop_emptied :
    ∃ files a b, files = (Prog.crash Env.direct.exec (cutAfter 0) 17
        (receiver (ascii "in") byteChunkOnly) (boot twoByteOutput)).files ∧
      UncutRun Env.direct (ascii "in") files (ascii "a") [1] a b ∧
      (Prog.run Env.direct.exec (receiver (ascii "in") b) (boot files)).1.1.code = 0 ∧
      (Prog.run Env.direct.exec (receiver (ascii "in") b) (boot files)).2.files
        (ascii "in/received_a") = some [1] := by
  have hcame : (acceptChunks (senderManifest (ascii "a") [1]) (requestedChunks twoByteOutput
      (senderManifest (ascii "a") [1]) (outputPathFor (ascii "in") (senderManifest (ascii "a") [1])))
      (receiveFileManifest byteChunkOnly).2.incoming).chunks = [(0, [1])] := by
    decide +kernel
  have hlimit : (senderManifest (ascii "a") [1]).chunkCount.toNat ≤ 1000000 := by decide
  obtain ⟨-, hlater⟩ := fresh_stop_iff (ascii "in") twoByteOutput byteChunkOnly rfl
    (senderManifest (ascii "a") [1]) (by decide +kernel) (by
      intro cp hcp
      rw [twoByteOutput_fresh] at hcp
      cases hcp) Env.direct Env.direct_reliable.steady 0 17
  have hcompletes := ((hlater (ascii "a") [1] rfl (sendable_byte 1) hlimit).2 (by
    intro x hx
    rw [hcame, List.mem_singleton] at hx
    rw [hx]
    decide) fun _ _ _ => rfl).mpr (by
      iterate 5 right
      exact Or.inr ⟨by decide, rfl⟩)
  obtain ⟨a, b, hu⟩ := uncutRun_exists Env.direct_reliable (ascii "in")
    (Prog.crash Env.direct.exec (cutAfter 0) 17 (receiver (ascii "in") byteChunkOnly)
      (boot twoByteOutput)).files (ascii "a") (sendable_byte 1) (by decide)
    (requestedChunks_le_limit hlimit)
  exact ⟨_, a, b, rfl, hu, hcompletes _ a b hu⟩

def byteManifestOnly : TcpSocket :=
  { incoming := serializeFileManifest (senderManifest (ascii "a") [1]) }

/-- The directory when the receiver is killed before it empties the old output. -/
def stoppedFiles : Files :=
  (Prog.crash Env.direct.exec (cutAfter 0) 7 (receiver (ascii "in") byteManifestOnly)
    (boot twoByteOutput)).files

theorem stop_leaves_longer :
    (receiveFileManifest byteManifestOnly).1 = some (senderManifest (ascii "a") [1]) ∧
      reloaded twoByteOutput (checkpointPathForOutput
        (outputPathFor (ascii "in") (senderManifest (ascii "a") [1]))) = none ∧
      ¬ ResumableWithin (senderManifest (ascii "a") [1])
        (outputPathFor (ascii "in") (senderManifest (ascii "a") [1])) stoppedFiles ∧
      ∀ env a b, UncutRun env (ascii "in") stoppedFiles (ascii "a") [1] a b →
        (Prog.run env.exec (receiver (ascii "in") b) (boot stoppedFiles)).2.files
          (outputPathFor (ascii "in") (senderManifest (ascii "a") [1])) ≠ some [1] := by
  have hckpt : stoppedFiles (checkpointPathForOutput
      (outputPathFor (ascii "in") (senderManifest (ascii "a") [1]))) =
      some (checkpointText (createCheckpointFromManifest (senderManifest (ascii "a") [1]))) := by
    decide +kernel
  have hout : stoppedFiles (outputPathFor (ascii "in") (senderManifest (ascii "a") [1])) =
      some [0, 0] := by
    decide +kernel
  have hname : newline ∉ (senderManifest (ascii "a") [1]).filename :=
    newline_not_mem_senderManifest _ _
  refine ⟨by decide +kernel, ?_, ?_, ?_⟩
  · exact twoByteOutput_fresh
  · rw [resumableWithin_fresh_iff hckpt hout (by decide)]
    exact hname
  · intro env a b h
    have hres := resumed_of_saved hout hckpt (createCheckpoint_matches _) hname
    exact h.ne_of_longer hres hout (by decide)

end PacketBridge
