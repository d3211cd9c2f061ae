import PacketBridge.CheckpointFile
import PacketBridge.Receiver

/-! The chunk loop of the receiver: which chunks it takes from a stream, and what it makes of them
when every file operation works. -/
namespace PacketBridge
open Foundations

/-- The chunks the loop takes, why it ends early, and the bytes it leaves in the stream. -/
structure Accepted where
  chunks : List (UInt64 × Bytes)
  failed : Option ReceiverExit
  rest : Bytes

/-- The loop seen from the stream: the chunks it takes for the indexes it expects. -/
def acceptChunks (m : FileManifest) : List UInt64 → Bytes → Accepted
  | [], bs => ⟨[], none, bs⟩
  | i :: is, bs =>
    match parseChunkHeader bs with
    | (none, n) => ⟨[], some .headerNotReceived, bs.drop n⟩
    | (some header, n) =>
      let size := header.payloadSize.toNat
      if header.chunkIndex ≠ i ∨ validateChunkHeader m header = false then
        ⟨[], some .headerInvalid, bs.drop n⟩
      else if bs.length < n+size then ⟨[], some .payloadNotReceived, bs.drop (n+size)⟩
      else if maxOffset ≤ header.byteOffset.toNat then ⟨[], some .writeFailed, bs.drop (n+size)⟩
      else
        let later := acceptChunks m is (bs.drop (n+size))
        ⟨(i, slice bs n size) :: later.chunks, later.failed, later.rest⟩

def storeChunks (m : FileManifest) (content : Bytes) (chunks : List (UInt64 × Bytes)) : Bytes :=
  chunks.foldl (fun c x => writeAt c (m.chunkOffset x.1) x.2) content

def TransferCheckpoint.withChunks (cp : TransferCheckpoint) (indexes : List UInt64) :
    TransferCheckpoint :=
  { cp with completedChunks := AscSet.insertAll indexes cp.completedChunks }

@[simp] theorem withChunks_nil (cp : TransferCheckpoint) : cp.withChunks [] = cp := rfl

theorem withChunks_cons (cp : TransferCheckpoint) (i : UInt64) (is : List UInt64) :
    cp.withChunks (i :: is) =
      { cp with completedChunks := cp.completedChunks.insert i : TransferCheckpoint }.withChunks is :=
  rfl

@[simp] theorem mem_withChunks (cp : TransferCheckpoint) (is : List UInt64) (i : UInt64) :
    i ∈ (cp.withChunks is).completedChunks ↔ i ∈ is ∨ i ∈ cp.completedChunks :=
  AscSet.mem_insertAll i is cp.completedChunks

def PlannedChunk (m : FileManifest) (x : UInt64 × Bytes) : Prop :=
  x.1 < m.chunkCount ∧ x.2.length = m.chunkLength x.1

theorem acceptChunks_planned {m : FileManifest} (hm : m.Planned) (idxs : List UInt64)
    (bs : Bytes) : ∀ x ∈ (acceptChunks m idxs bs).chunks, PlannedChunk m x := by
  induction idxs generalizing bs with
  | nil => intro x hx; cases hx
  | cons i is ih =>
    unfold acceptChunks
    split
    · intro x hx; cases hx
    · rename_i header n _
      simp only
      split_ifs with hbad hshort hfar
      · intro x hx; cases hx
      · intro x hx; cases hx
      · intro x hx; cases hx
      · simp only [not_or, ne_eq, not_not, Bool.not_eq_false] at hbad
        obtain ⟨rfl, hvalid⟩ := hbad
        obtain ⟨hi, -, hsize, -⟩ := (validateChunkHeader_iff hm header).mp hvalid
        intro x hx
        rcases List.mem_cons.mp hx with rfl | hx
        · exact ⟨hi, by rw [← hsize, length_slice _ _ _ (not_lt.mp hshort)]⟩
        · exact ih _ x hx

/-- The chunks are taken in the order of the list, from its beginning. -/
theorem acceptChunks_prefix (m : FileManifest) (idxs : List UInt64) (bs : Bytes) :
    (acceptChunks m idxs bs).chunks.map Prod.fst <+: idxs := by
  induction idxs generalizing bs with
  | nil => exact List.nil_prefix
  | cons i is ih =>
    unfold acceptChunks
    split
    · exact List.nil_prefix
    · simp only
      split_ifs
      · exact List.nil_prefix
      · exact List.nil_prefix
      · exact List.nil_prefix
      · exact (List.prefix_cons_inj i).mpr (ih _)

/-- The loop ends without a failure exactly when it has taken a chunk for every index. -/
theorem acceptChunks_failed_eq_none (m : FileManifest) (idxs : List UInt64) (bs : Bytes) :
    (acceptChunks m idxs bs).failed = none ↔
      (acceptChunks m idxs bs).chunks.map Prod.fst = idxs := by
  induction idxs generalizing bs with
  | nil => exact iff_of_true rfl rfl
  | cons i is ih =>
    unfold acceptChunks
    split
    · exact iff_of_false nofun nofun
    · simp only
      split_ifs
      · exact iff_of_false nofun nofun
      · exact iff_of_false nofun nofun
      · exact iff_of_false nofun nofun
      · simp only [List.map_cons, List.cons.injEq, true_and]
        exact ih _

/-- One turn of the loop: it ends before it touches a file, or it has a header and a payload that
fit the plan and goes on to store them. -/
theorem receiveLoop_turn {m : FileManifest} (hm : m.Planned) (out ckpt : Bytes) (i : UInt64)
    (is : List UInt64) (cp : TransferCheckpoint) (t : ProgressTracker) (s : TcpSocket)
    (ho : s.isOpen = true) :
    (∃ exit n k, receiveLoop out ckpt m (i :: is) cp t s = pure (some exit, t, s.skip n k) ∧
      acceptChunks m (i :: is) s.incoming = ⟨[], some exit, s.incoming.drop n⟩) ∨
    (∃ offset payload n k, i < m.chunkCount ∧ offset.toNat = m.chunkOffset i ∧
      payload.length = m.chunkLength i ∧
      acceptChunks m (i :: is) s.incoming =
        (if maxOffset ≤ offset.toNat then ⟨[], some .writeFailed, s.incoming.drop n⟩
        else
          let later := acceptChunks m is (s.incoming.drop n)
          ⟨(i, payload) :: later.chunks, later.failed, later.rest⟩) ∧
      receiveLoop out ckpt m (i :: is) cp t s = (do
        call (.seekp out offset)
        let written ← call (.write out payload)
        if written then
          let saved ← saveCheckpoint ckpt (cp.withChunks [i])
          if saved then
            receiveLoop out ckpt m is (cp.withChunks [i]) (t.afterChunks m [i]) (s.skip n k)
          else return (some .checkpointNotUpdated, t.afterChunks m [i], s.skip n k)
        else return (some .writeFailed, t, s.skip n k))) := by
  obtain ⟨k, hk⟩ := receiveChunkHeader_reads s ho
  rw [receiveLoop, hk, acceptChunks]
  -- the turn ends where a message is missing or does not fit the plan
  cases hp : parseChunkHeader s.incoming with
  | mk header n =>
    cases header with
    | none => exact Or.inl ⟨_, n, k, rfl, rfl⟩
    | some header =>
      simp only
      by_cases hbad : header.chunkIndex ≠ i ∨ validateChunkHeader m header = false
      · rw [if_pos hbad, if_pos hbad]
        exact Or.inl ⟨_, n, k, rfl, rfl⟩
      · rw [if_neg hbad, if_neg hbad]
        simp only [not_or, ne_eq, not_not, Bool.not_eq_false] at hbad
        obtain ⟨rfl, hvalid⟩ := hbad
        obtain ⟨hi, hoff, hsize, -⟩ := (validateChunkHeader_iff hm header).mp hvalid
        have hsize' : payloadSizeForChunk m header.chunkIndex = header.payloadSize := by
          rw [← UInt32.toNat_inj, hm.payloadSizeForChunk_toNat hi, hsize]
        obtain ⟨k', hk'⟩ := (s.skip n k).recvExact_eq header.payloadSize.toNat
          (by rwa [TcpSocket.skip_isOpen])
        rw [hk', TcpSocket.skip_skip, TcpSocket.skip_incoming, List.length_drop]
        by_cases hshort : s.incoming.length < n+header.payloadSize.toNat
        · have hpos := hm.chunkLength_pos hi
          rw [if_pos hshort, if_neg (by omega)]
          exact Or.inl ⟨_, n+header.payloadSize.toNat, k', rfl, rfl⟩
        · rw [if_neg hshort, if_pos (by omega)]
          refine Or.inr ⟨header.byteOffset, slice s.incoming n header.payloadSize.toNat,
            n+header.payloadSize.toNat, k', hi, hoff, ?_, rfl, ?_⟩
          · rw [length_slice _ _ _ (not_lt.mp hshort), hsize]
          · rw [ProgressTracker.afterChunks, List.foldl_cons, List.foldl_nil, hsize']
            rfl

/-- The state after the loop, when every file operation works: the output will hold the chunks
taken, the checkpoint lists them. -/
structure LoopEnd (S : TransferCheckpoint → Bytes → Prop) (m : FileManifest) (out : Bytes)
    (cp : TransferCheckpoint) (content : Bytes) (chunks : List (UInt64 × Bytes)) (w w' : World) :
    Prop where
  output : w'.view out = some (storeChunks m content chunks)
  checkpoint : ∃ text, w'.files (checkpointPathForOutput out) = some text ∧
    S (cp.withChunks (chunks.map Prod.fst)) text
  temporary : w'.files (temporaryPath (checkpointPathForOutput out)) = none
  writes : w'.writesTo out =
    w.writesTo out ++ chunks.map fun x => (m.chunkOffset x.1, x.2)
  same : ∀ q, q ≠ out → q ≠ checkpointPathForOutput out →
    q ≠ temporaryPath (checkpointPathForOutput out) → World.Same q w w'

theorem World.buffer_writesTo_self (w : World) (p data : Bytes) :
    (w.buffer p data).writesTo p =
      w.writesTo p ++ [((w.streams p).position+(w.streams p).pending.length, data)] := by
  simp only [World.writesTo, World.buffer_writes, List.filter_append, List.filter_cons,
    decide_true, ↓reduceIte, List.filter_nil, List.map_append, List.map_cons, List.map_nil]

section LoopEnd

variable {S : TransferCheckpoint → Bytes → Prop} {m : FileManifest} {out content : Bytes}
  {cp : TransferCheckpoint} {w w1 w' : World}

theorem LoopEnd.nil (hv : w'.view out = some content)
    (hc : ∃ text, w'.files (checkpointPathForOutput out) = some text ∧ S cp text)
    (ht : w'.files (temporaryPath (checkpointPathForOutput out)) = none)
    (hw : w'.writesTo out = w.writesTo out) (hs : ∀ q, q ≠ out → World.Same q w w') :
    LoopEnd S m out cp content [] w w' := by
  refine ⟨hv, hc, ht, ?_, fun q hq _ _ => hs q hq⟩
  rw [hw, List.map_nil, List.append_nil]

theorem LoopEnd.cons {x : UInt64 × Bytes} {chunks : List (UInt64 × Bytes)}
    (h : LoopEnd S m out (cp.withChunks [x.1]) (writeAt content (m.chunkOffset x.1) x.2) chunks
      w1 w')
    (hw : w1.writesTo out = w.writesTo out ++ [(m.chunkOffset x.1, x.2)])
    (hs : ∀ q, q ≠ out → q ≠ checkpointPathForOutput out →
      q ≠ temporaryPath (checkpointPathForOutput out) → World.Same q w w1) :
    LoopEnd S m out cp content (x :: chunks) w w' := by
  refine ⟨h.output, h.checkpoint, h.temporary, ?_, ?_⟩
  · rw [h.writes, hw, List.append_assoc, List.map_cons]
    rfl
  · intro q hq hq' hq''
    exact (hs q hq hq' hq'').trans (h.same q hq hq' hq'')

end LoopEnd

theorem same_seek_write (env : Env) {out q : Bytes} (offset : UInt64) (payload : Bytes) (w : World)
    (hq : q ≠ out) :
    World.Same q w (env.exec (.write out payload) (env.exec (.seekp out offset) w).2).2 := by
  have hseek : q ∉ FileOp.touches (.seekp out offset) := by
    rwa [FileOp.touches, List.mem_singleton]
  have hwrite : q ∉ FileOp.touches (.write out payload) := by
    rwa [FileOp.touches, List.mem_singleton]
  exact (exec_same env _ w q hseek).trans (exec_same env _ _ q hwrite)

/-- A seek beyond what a stream can address fails, and so does the write behind it. -/
theorem run_seek_write_far {env : Env} (out : Bytes) (offset : UInt64) (payload : Bytes) (w : World)
    (hseek : env.fault w.history.length (.seekp out offset) = none)
    (hg : (w.streams out).good = true) (hfar : ¬ offset.toNat < maxOffset) :
    let w' := (env.exec (.write out payload) (env.exec (.seekp out offset) w).2).2
    (env.exec (.write out payload) (env.exec (.seekp out offset) w).2).1 = false ∧
      w'.view out = w.view out ∧ w'.writesTo out = w.writesTo out := by
  have hexec := exec_seekp_far hseek hg hfar
  have hbad : ((env.exec (.seekp out offset) w).2.streams out).good = false := by
    rw [hexec, World.setStream_streams_self]
  rw [exec_write_bad hbad, hexec]
  refine ⟨rfl, ?_, rfl⟩
  have hempty : ((((w.log (.seekp out offset)).flush out).setStream out {}).streams out).pending =
      [] := by rw [World.setStream_streams_self]
  change World.view (World.setStream _ _ _) out = _
  rw [World.view_of_pending_nil _ _ hempty, World.setStream_files, World.flush_files_self]
  rfl

/-- A seek and a write put the bytes to their place. -/
theorem run_seek_write {env : Env} (out : Bytes) (offset : UInt64) (payload content : Bytes)
    (hseek : ∀ n, env.fault n (.seekp out offset) = none)
    (hwrite : ∀ n, env.fault n (.write out payload) = none) (w : World)
    (hg : (w.streams out).good = true)
    (hv : w.view out = some content) (hfar : offset.toNat < maxOffset) :
    let w' := (env.exec (.write out payload) (env.exec (.seekp out offset) w).2).2
    (env.exec (.write out payload) (env.exec (.seekp out offset) w).2).1 = true ∧
      (w'.streams out).good = true ∧ w'.view out = some (writeAt content offset.toNat payload) ∧
      w'.writesTo out = w.writesTo out ++ [(offset.toNat, payload)] := by
  have hseek := exec_seekp (hseek w.history.length) hg hfar
  have hstream : ((env.exec (.seekp out offset) w).2.streams out) =
      { good := true, position := offset.toNat } := by
    rw [hseek, World.setStream_streams_self]
  have hfile : (env.exec (.seekp out offset) w).2.files out = some content := by
    rw [hseek, World.setStream_files, World.flush_files_self]
    exact hv
  have hwrites : (env.exec (.seekp out offset) w).2.writesTo out = w.writesTo out := by
    rw [hseek]
    rfl
  have hgood : ((env.exec (.seekp out offset) w).2.streams out).good = true := by rw [hstream]
  have hf := hwrite (env.exec (.seekp out offset) w).2.history.length
  have hwrite := exec_write hf hgood
  refine ⟨by rw [hwrite], ?_, ?_, ?_⟩
  · rw [hwrite, World.drain_streams_self, World.buffer_streams_self, World.log_streams, hstream]
  · rw [exec_write_view hf hgood, hfile, hstream, Option.map_some, List.nil_append]
  · rw [hwrite]
    change (World.buffer _ out payload).writesTo out = _
    rw [World.buffer_writesTo_self, World.log_streams, hstream, ← hwrites]
    rfl

/-- The loop takes the chunks `acceptChunks` names and stores them. -/
theorem run_receiveLoop {env : Env} {S : TransferCheckpoint → Bytes → Prop} {out : Bytes}
    (hl : SaveLaw env (checkpointPathForOutput out) S) {m : FileManifest} (hm : m.Planned)
    (idxs : List UInt64) (cp : TransferCheckpoint) (t : ProgressTracker) (s : TcpSocket)
    (w : World) (content : Bytes) (ho : s.isOpen = true) (hg : (w.streams out).good = true)
    (hv : w.view out = some content)
    (hc : ∃ text, w.files (checkpointPathForOutput out) = some text ∧ S cp text)
    (ht : w.files (temporaryPath (checkpointPathForOutput out)) = none) :
    ∃ n k t' w', Prog.run env.exec
        (receiveLoop out (checkpointPathForOutput out) m idxs cp t s) w =
        (((acceptChunks m idxs s.incoming).failed, t', s.skip n k), w') ∧
      s.incoming.drop n = (acceptChunks m idxs s.incoming).rest ∧
      LoopEnd S m out cp content (acceptChunks m idxs s.incoming).chunks w w' := by
  have hcout := checkpointPath_ne out
  have htout := temporaryPath_checkpointPath_ne out
  have hseekf (offset : UInt64) (n : ℕ) : env.fault n (.seekp out offset) = none :=
    hl.calls n _ (by rwa [FileOp.touches, List.mem_singleton])
  have hwritef (payload : Bytes) (n : ℕ) : env.fault n (.write out payload) = none :=
    hl.calls n _ (by rwa [FileOp.touches, List.mem_singleton])
  -- the induction is on the indexes still expected, each turn from the files the last one left
  induction idxs generalizing cp t s w content with
  | nil =>
    exact ⟨0, s.recvs, t, w, rfl, rfl, LoopEnd.nil hv hc ht rfl fun _ _ => World.Same.refl⟩
  | cons i is ih =>
    rcases receiveLoop_turn hm out (checkpointPathForOutput out) i is cp t s ho with
      ⟨exit, n, k, hloop, hacc⟩ | ⟨offset, payload, n, k, hi, hoff, hlen, hacc, hloop⟩
    · rw [hloop, hacc]
      exact ⟨n, k, t, w, rfl, rfl, LoopEnd.nil hv hc ht rfl fun _ _ => World.Same.refl⟩
    · have hsame1 (q : Bytes) (hq : q ≠ out) := same_seek_write env offset payload w hq
      by_cases hnear : offset.toNat < maxOffset
      · rw [if_neg (not_le.mpr hnear)] at hacc
        obtain ⟨hok, hg1, hv1, hw1⟩ := run_seek_write out offset payload content (hseekf offset)
          (hwritef payload) w hg hv hnear
        generalize hstore : (env.exec (.write out payload) (env.exec (.seekp out offset) w).2).2 =
          w1 at hsame1 hg1 hv1 hw1
        generalize hsave : Prog.run env.exec (saveCheckpoint (checkpointPathForOutput out)
          (cp.withChunks [i])) w1 = saved
        obtain ⟨ok, w2⟩ := saved
        obtain ⟨rfl, htext, htmp, hsame2⟩ := hl.save _ _ _ _ hsave
        have hout := hsame2 out (Ne.symm hcout) (Ne.symm htout)
        have hg2 : (w2.streams out).good = true := by rw [hout.streams, hg1]
        have hv2 : w2.view out = some (writeAt content offset.toNat payload) := by
          rw [hout.view, hv1]
        obtain ⟨n', k', t', w3, hrun, hrest, hend⟩ := ih (cp.withChunks [i])
          (t.afterChunks m [i]) (s.skip n k) w2 _ ho hg2 hv2 htext htmp
        rw [TcpSocket.skip_incoming] at hrun hrest hend
        rw [hoff] at hend hw1
        refine ⟨n+n', k', t', w3, ?_, ?_, ?_⟩
        · rw [hloop, hacc]
          simp only [call, Prog.run_bind, Prog.run_perform, hok, ↓reduceIte, hstore, hsave]
          rw [hrun, TcpSocket.skip_skip]
        · rw [hacc, ← hrest, List.drop_drop]
        · rw [hacc]
          apply LoopEnd.cons hend
          · rw [hout.writesTo, hw1]
          · intro q hq hq' hq''
            exact (hsame1 q hq).trans (hsame2 q hq' hq'')
      · -- the seek target does not fit, the write fails and nothing is stored
        rw [if_pos (not_lt.mp hnear)] at hacc
        obtain ⟨hfail, hv1, hw1⟩ := run_seek_write_far out offset payload w (hseekf offset _) hg hnear
        refine ⟨n, k, t, (env.exec (.write out payload) (env.exec (.seekp out offset) w).2).2,
          ?_, ?_, ?_⟩
        · rw [hloop, hacc]
          simp only [call, Prog.run_bind, Prog.run_perform, hfail, Bool.false_eq_true, ↓reduceIte,
            Prog.run_pure]
        · rw [hacc]
        · rw [hacc]
          refine LoopEnd.nil (hv1.trans hv) ?_ ?_ hw1 hsame1
          · rw [(hsame1 _ hcout).files]
            exact hc
          · rw [(hsame1 _ htout).files, ht]

end PacketBridge
