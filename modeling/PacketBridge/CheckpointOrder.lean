import PacketBridge.LoopSafety
import PacketBridge.ReceiverCalls
import PacketBridge.StoredChunks
import PacketBridge.TornRuns

namespace PacketBridge
open Foundations

/-- No write of these payloads to the file leaves bytes in the buffer of its stream. -/
def Env.WritesThrough (env : Env) (path : Bytes) (chunks : List (UInt64 × Bytes)) : Prop :=
  ∀ n, ∀ x ∈ chunks, env.kept n (.write path x.2) = 0

/-- The checkpoint on the disk is the one the run found, when nothing is written to the output yet;
or missing; or it lists the chunks the run started with and some that it has taken, and these stand
in the output on the disk. -/
def NotAhead (files : Files) (m : FileManifest) (out : Bytes) (chunks : List (UInt64 × Bytes))
    (w : World) : Prop :=
  (w.writesTo out = [] ∧
    w.files (checkpointPathForOutput out) = files (checkpointPathForOutput out)) ∨
  w.files (checkpointPathForOutput out) = none ∨
  ∃ taken, taken <+: chunks ∧ w.files (checkpointPathForOutput out) =
      some (checkpointText ((startingCheckpoint files m out).withChunks (taken.map Prod.fst))) ∧
    ∀ x ∈ taken, ∃ c, w.files out = some c ∧ HoldsAt c (m.chunkOffset x.1) x.2

/-- The output on the disk holds the chunks `done`, nothing is in its buffer, and the checkpoint
lists the first of them. -/
structure OnDisk (files : Files) (m : FileManifest) (out : Bytes)
    (chunks done listed : List (UInt64 × Bytes)) (w : World) : Prop where
  content : ∃ c, w.files out = some c ∧ ∀ x ∈ done, HoldsAt c (m.chunkOffset x.1) x.2
  pending : (w.streams out).pending = []
  front : done <+: chunks
  listedFront : listed <+: done
  checkpoint : w.files (checkpointPathForOutput out) =
    some (checkpointText ((startingCheckpoint files m out).withChunks (listed.map Prod.fst)))

section Settled

variable {env : Env} {w : World} {p : Bytes}

theorem World.drain_files_settled (hp : (w.streams p).pending = []) (n : ℕ) :
    (w.drain p n).files p = w.files p := by
  rw [World.drain_files_self, hp, List.take_nil]
  simp only [writeAt_nil, Option.map_id']

theorem World.flush_files_settled (hp : (w.streams p).pending = []) :
    (w.flush p).files p = w.files p := World.drain_files_settled hp _

/-- A seek on a stream with nothing in its buffer only moves the position, or fails. -/
theorem exec_seekp_settled {offset : UInt64}
    (hf : env.fault w.history.length (.seekp p offset) = none)
    (hp : (w.streams p).pending = []) :
    let w' := (env.exec (.seekp p offset) w).2
    w'.files p = w.files p ∧ (w'.streams p).pending = [] ∧
      ((w'.streams p).good = true →
        offset.toNat < maxOffset ∧ (w'.streams p).position = offset.toNat) := by
  intro w'
  cases hg : (w.streams p).good with
  | false =>
    simp only [w', exec_seekp_bad hg, World.log_files, World.log_streams, hp, true_and]
    intro h
    rw [hg] at h
    cases h
  | true =>
    have hlog : ((w.log (.seekp p offset)).streams p).pending = [] := hp
    by_cases hnear : offset.toNat < maxOffset
    · simp only [w', exec_seekp hf hg hnear, World.setStream_files, World.setStream_streams_self,
        World.flush_files_settled hlog, World.log_files, true_and]
      intro _
      exact ⟨hnear, trivial⟩
    · simp only [w', exec_seekp_far hf hg hnear, World.setStream_files,
        World.setStream_streams_self, World.flush_files_settled hlog, World.log_files, true_and]
      intro h
      cases h

theorem exec_write_settled {data : Bytes} (hf : env.fault w.history.length (.write p data) = none)
    (hk : env.kept w.history.length (.write p data) = 0) (hg : (w.streams p).good = true)
    (hp : (w.streams p).pending = []) :
    let w' := (env.exec (.write p data) w).2
    (env.exec (.write p data) w).1 = true ∧
      w'.files p = (w.files p).map (fun c => writeAt c (w.streams p).position data) ∧
      (w'.streams p).pending = [] := by
  intro w'
  have hexec := exec_write hf hg
  have hview := exec_write_view hf hg
  have hpending : (w'.streams p).pending = [] := by
    simp only [w', hexec, World.drain_streams_self, World.buffer_streams_self, World.log_streams,
      hk, Nat.sub_zero, List.drop_length]
  rw [World.view_of_pending_nil _ _ hpending, hp] at hview
  exact ⟨by rw [hexec], hview, hpending⟩

theorem cutAfter_write_settled (data : Bytes) (k : ℕ) (hg : (w.streams p).good = true)
    (hp : (w.streams p).pending = []) : (cutAfter k (.write p data) w).files p =
      (w.files p).map fun c => writeAt c (w.streams p).position (data.take k) := by
  rw [cutAfter, if_neg (by rw [hg]; decide)]
  rw [World.drain_files_self, World.buffer_streams_self, World.buffer_files, hp, List.nil_append]

end Settled

variable {files : Files} {m : FileManifest} {out : Bytes} {chunks done listed : List (UInt64 × Bytes)}

theorem NotAhead.congr {w w' : World} (h : NotAhead files m out chunks w)
    (hout : w'.files out = w.files out) (hwrites : w'.writesTo out = w.writesTo out)
    (hckpt : w'.files (checkpointPathForOutput out) = w.files (checkpointPathForOutput out)) :
    NotAhead files m out chunks w' := by
  rw [NotAhead, hout, hwrites, hckpt]
  exact h

theorem OnDisk.notAhead {w : World} (h : OnDisk files m out chunks done listed w) :
    NotAhead files m out chunks w := by
  obtain ⟨c, hc, hholds⟩ := h.content
  refine Or.inr (Or.inr ⟨listed, h.listedFront.trans h.front, h.checkpoint, ?_⟩)
  intro x hx
  exact ⟨c, hc, hholds x (h.listedFront.subset hx)⟩

theorem holdsAt_writeAt_new (hplanned : ∀ x ∈ chunks, PlannedChunk m x)
    (hnodup : (chunks.map Prod.fst).Nodup) {x y : UInt64 × Bytes} (hfront : done ++ [x] <+: chunks)
    (hy : y ∈ done) {c : Bytes} (hholds : HoldsAt c (m.chunkOffset y.1) y.2) (data : Bytes)
    (hdata : data.length ≤ m.chunkLength x.1) :
    HoldsAt (writeAt c (m.chunkOffset x.1) data) (m.chunkOffset y.1) y.2 := by
  have hylen := (hplanned y (hfront.subset (List.mem_append_left _ hy))).2
  have hne : y.1 ≠ x.1 := by
    have hsub := hnodup.sublist (hfront.sublist.map Prod.fst)
    rw [List.map_append, List.nodup_append] at hsub
    exact hsub.2.2 y.1 (List.mem_map_of_mem hy) x.1 List.mem_cons_self
  apply holdsAt_writeAt_beside _ _ _ _ _ hholds
  rcases lt_or_gt_of_ne hne with hlt | hgt
  · have := m.chunk_end_le_chunkOffset hlt
    left
    omega
  · have := m.chunk_end_le_chunkOffset hgt
    right
    omega

theorem not_mem_touches {q p : Bytes} (h : q ≠ p) {o : FileOp} (ho : o.touches = [p]) :
    q ∉ o.touches := by
  rwa [ho, List.mem_singleton]

section Turn

variable {env : Env} {w : World}

/-- The seek of a turn leaves the stream at the place of the chunk, or not good. -/
theorem seekp_onDisk (hs : env.Steady) (offset : UInt64)
    (h : OnDisk files m out chunks done done w) :
    Prog.Safe env.exec cutAfter (NotAhead files m out chunks) (call (.seekp out offset)) w
      fun _ t => OnDisk files m out chunks done done t ∧
        ((t.streams out).good = true →
          offset.toNat < maxOffset ∧ (t.streams out).position = offset.toNat) := by
  have hckpt := checkpointPath_ne out
  have hseek := exec_seekp_settled (hs w.history.length (.seekp out offset) rfl) h.pending
  have hsame := (exec_same env (.seekp out offset) w _ (not_mem_touches hckpt rfl)).files
  have hdisk : OnDisk files m out chunks done done (env.exec (.seekp out offset) w).2 := by
    refine ⟨?_, hseek.2.1, h.front, h.listedFront, hsame.trans h.checkpoint⟩
    rw [hseek.1]
    exact h.content
  apply Prog.Safe.perform
  · intro k
    have hcut := cutAfter_same k (.seekp out offset) w _ (not_mem_touches hckpt rfl)
    exact h.notAhead.congr (World.drain_files_settled h.pending k) rfl hcut.files
  · exact hdisk.notAhead
  · exact ⟨hdisk, hseek.2.2⟩

/-- The write of a turn puts the chunk behind those before it. -/
theorem write_onDisk (hs : env.Steady) (hthrough : env.WritesThrough out chunks)
    (hplanned : ∀ x ∈ chunks, PlannedChunk m x) (hnodup : (chunks.map Prod.fst).Nodup)
    (h : OnDisk files m out chunks done done w) {x : UInt64 × Bytes}
    (hlen : x.2.length = m.chunkLength x.1) (hfront : done ++ [x] <+: chunks)
    (hg : (w.streams out).good = true) (hpos : (w.streams out).position = m.chunkOffset x.1) :
    Prog.Safe env.exec cutAfter (NotAhead files m out chunks) (call (.write out x.2)) w
      fun ok t => ok = true ∧ OnDisk files m out chunks (done ++ [x]) done t := by
  have hckpt := checkpointPath_ne out
  obtain ⟨c, hc, hholds⟩ := h.content
  have hx : x ∈ chunks := hfront.subset (List.mem_append_right _ List.mem_cons_self)
  obtain ⟨hok, hfile, hpend⟩ := exec_write_settled (hs w.history.length (.write out x.2) rfl)
    (hthrough _ x hx) hg h.pending
  have hsame := (exec_same env (.write out x.2) w _ (not_mem_touches hckpt rfl)).files
  rw [hpos, hc, Option.map_some] at hfile
  have hstored : OnDisk files m out chunks (done ++ [x]) done
      (env.exec (.write out x.2) w).2 := by
    refine ⟨⟨_, hfile, ?_⟩, hpend, hfront, List.prefix_append _ _, hsame.trans h.checkpoint⟩
    intro y hy
    rcases List.mem_append.mp hy with hy | hy
    · exact holdsAt_writeAt_new hplanned hnodup hfront hy (hholds y hy) _ hlen.le
    · rw [List.mem_singleton.mp hy]
      exact holdsAt_writeAt _ _ _
  apply Prog.Safe.perform
  · intro k
    -- a part of the new chunk may be there, those before it are
    have hcutck := (cutAfter_same k (.write out x.2) w _ (not_mem_touches hckpt rfl)).files
    have hcut := cutAfter_write_settled x.2 k hg h.pending
    rw [hpos, hc, Option.map_some] at hcut
    refine Or.inr (Or.inr ⟨done, h.front, hcutck.trans h.checkpoint, ?_⟩)
    intro y hy
    refine ⟨_, hcut, ?_⟩
    apply holdsAt_writeAt_new hplanned hnodup hfront hy (hholds y hy)
    rw [List.length_take, ← hlen]
    exact Nat.min_le_right _ _
  · exact hstored.notAhead
  · exact ⟨hok, hstored⟩

theorem saveCheckpoint_onDisk (hs : env.Steady) (h : OnDisk files m out chunks done listed w) :
    Prog.Safe env.exec cutAfter (NotAhead files m out chunks)
      (saveCheckpoint (checkpointPathForOutput out)
        ((startingCheckpoint files m out).withChunks (done.map Prod.fst))) w
      fun ok t => (ok = true → OnDisk files m out chunks done done t) ∧
        NotAhead files m out chunks t ∧ (t.streams out).pending = [] := by
  have hne : out ≠ checkpointPathForOutput out := Ne.symm (checkpointPath_ne out)
  have hnt : out ≠ temporaryPath (checkpointPathForOutput out) :=
    Ne.symm (temporaryPath_checkpointPath_ne out)
  obtain ⟨c, hc, hholds⟩ := h.content
  have hsaving : ∀ t, Saving (checkpointPathForOutput out)
      ((startingCheckpoint files m out).withChunks (done.map Prod.fst)) w t →
      NotAhead files m out chunks t := by
    intro t ht
    have hsame := ht.same out hne hnt
    rcases ht.file with hf | hf | hf
    · exact h.notAhead.congr hsame.files hsame.writesTo hf
    · exact Or.inr (Or.inl hf)
    · refine Or.inr (Or.inr ⟨done, h.front, hf, ?_⟩)
      intro x hx
      exact ⟨c, hsame.files.trans hc, hholds x hx⟩
  refine (saveCheckpoint_safe hs _ _ w).mono hsaving ?_
  intro ok t hend
  have hsame := hend.saving.same out hne hnt
  have hpending : (t.streams out).pending = [] := by rw [hsame.streams, h.pending]
  refine ⟨?_, hsaving t hend.saving, hpending⟩
  intro hok
  exact ⟨⟨c, hsame.files.trans hc, hholds⟩, hpending, h.front, List.prefix_refl _,
    (hend.saved hok).1⟩

end Turn

theorem onDisk_rules {env : Env} (hs : env.Steady) (hthrough : env.WritesThrough out chunks)
    (hplanned : ∀ x ∈ chunks, PlannedChunk m x) (hnodup : (chunks.map Prod.fst).Nodup) :
    LoopRules env m out (checkpointPathForOutput out) (startingCheckpoint files m out) chunks
      (NotAhead files m out chunks)
      (fun w => NotAhead files m out chunks w ∧ (w.streams out).pending = [])
      (fun done w => OnDisk files m out chunks done done w)
      (fun done w => ∃ listed, OnDisk files m out chunks done listed w) where
  ended := fun w h => h.1
  ready := fun done w h => ⟨h.notAhead, h.pending⟩
  store := by
    intro done x offset w h hx hoff hfront
    refine (seekp_onDisk hs offset h).bind ?_
    rintro _ t ⟨hdisk, hplace⟩
    cases hg : (t.streams out).good with
    | false =>
      have hlog : NotAhead files m out chunks (t.log (.write out x.2)) :=
        hdisk.notAhead.congr rfl rfl rfl
      refine (write_bad_safe hg hdisk.notAhead hlog).mono (fun _ h => h) ?_
      rintro _ _ ⟨rfl, rfl⟩
      exact ⟨fun hb => absurd hb Bool.false_ne_true, fun _ => ⟨hlog, hdisk.pending⟩⟩
    | true =>
      obtain ⟨hnear, hpos⟩ := hplace hg
      refine (write_onDisk hs hthrough hplanned hnodup hdisk hx.2 (hfront hnear) hg
        (hpos.trans hoff)).mono (fun _ h => h) ?_
      rintro _ t' ⟨rfl, hstored⟩
      exact ⟨fun _ => ⟨hnear, done, hstored⟩, fun hb => absurd hb.symm Bool.false_ne_true⟩
  save := by
    rintro done w ⟨listed, h⟩
    refine (saveCheckpoint_onDisk hs h).mono (fun _ h => h) ?_
    rintro ok t ⟨hsaved, hend⟩
    exact ⟨hsaved, fun _ => hend⟩

theorem loadedCheckpoint_safe {env : Env} (hs : env.Steady) (files : Files) (m : FileManifest)
    (out : Bytes) :
    Prog.Safe env.exec cutAfter (fun t => ∀ q, World.Same q (boot files) t)
      (loadedCheckpoint out (checkpointPathForOutput out) m) (boot files)
      fun loaded t => loaded = resumed files m out ∧ ∀ q, World.Same q (boot files) t := by
  have hreads : Prog.Calls (fun o : FileOp => o.touches = [])
      (loadedCheckpoint out (checkpointPathForOutput out) m) :=
    calls_loadedCheckpoint (fun _ => rfl) out _ m
  have hnone {o : FileOp} (ho : o.touches = []) (q : Bytes) : q ∉ o.touches := by
    rw [ho]
    exact List.not_mem_nil
  have hsafe : Prog.Safe env.exec cutAfter (fun t => ∀ q, World.Same q (boot files) t)
      (loadedCheckpoint out (checkpointPathForOutput out) m) (boot files)
      fun _ t => ∀ q, World.Same q (boot files) t := by
    apply Prog.Calls.safe env.exec hreads
    · intro q
      exact World.Same.refl
    · intro o t ho ht q
      exact (ht q).trans (exec_same env o t q (hnone ho q))
    · intro k o t ho ht q
      exact (ht q).trans (cutAfter_same k o t q (hnone ho q))
  obtain ⟨w, hrun, -⟩ := run_loadedCheckpoint (fun n p => hs n (.read p) rfl) m out (boot files)
  have hreturns := hsafe.returns
  rw [hrun] at hreturns
  refine ⟨hsafe.always, ?_⟩
  rw [hrun]
  exact ⟨rfl, hreturns⟩

theorem notAhead_of_start {w : World} (h : w.files (checkpointPathForOutput out) =
    some (checkpointText (startingCheckpoint files m out))) : NotAhead files m out chunks w := by
  refine Or.inr (Or.inr ⟨[], List.nil_prefix, h, ?_⟩)
  intro x hx
  cases hx

/-- Calls on the output alone leave the checkpoint the transfer starts with. -/
theorem beside_notAhead (env : Env) (chunks : List (UInt64 × Bytes)) {α : Type} {p : FileProg α}
    (hp : Prog.Calls (fun o : FileOp => ∀ q ∈ o.touches, q = out) p) {w : World}
    (hw : w.files (checkpointPathForOutput out) =
      some (checkpointText (startingCheckpoint files m out))) :
    Prog.Safe env.exec cutAfter (NotAhead files m out chunks) p w fun _ t =>
      t.files (checkpointPathForOutput out) =
        some (checkpointText (startingCheckpoint files m out)) := by
  have hckpt := checkpointPath_ne out
  have hkept : Prog.Safe env.exec cutAfter (fun t => t.files (checkpointPathForOutput out) =
      some (checkpointText (startingCheckpoint files m out))) p w fun _ t =>
        t.files (checkpointPathForOutput out) =
          some (checkpointText (startingCheckpoint files m out)) := by
    apply Prog.Calls.safe env.exec hp hw
    · intro o t ho ht
      rw [(exec_same env o t _ fun hin => hckpt (ho _ hin)).files, ht]
    · intro k o t ho ht
      rw [(cutAfter_same k o t _ fun hin => hckpt (ho _ hin)).files, ht]
  exact hkept.mono (fun _ => notAhead_of_start) fun _ _ h => h

theorem eq_of_mem_touches {o : FileOp} (ho : o.touches = [out]) : ∀ q ∈ o.touches, q = out := by
  intro q hq
  rwa [ho, List.mem_singleton] at hq

theorem openInOut_onDisk (env : Env) (chunks : List (UInt64 × Bytes)) {w : World}
    (hw : w.files (checkpointPathForOutput out) =
      some (checkpointText (startingCheckpoint files m out))) :
    Prog.Safe env.exec cutAfter (NotAhead files m out chunks) (call (.openInOut out)) w
      fun ok t => NotAhead files m out chunks t ∧
        (ok = true → OnDisk files m out chunks [] [] t) := by
  have hcalls : Prog.Calls (fun o : FileOp => ∀ q ∈ o.touches, q = out) (call (.openInOut out)) :=
    calls_call (eq_of_mem_touches rfl)
  have hopen := beside_notAhead env chunks hcalls hw
  refine ⟨hopen.always, notAhead_of_start hopen.returns, ?_⟩
  intro hok
  have hkept := hopen.returns
  rw [call, Prog.run_perform] at hok hkept ⊢
  by_cases he : env.fault w.history.length (.openInOut out) = none ∧ (w.files out).isSome = true
  · obtain ⟨c, hc⟩ := Option.isSome_iff_exists.mp he.2
    refine ⟨⟨c, ?_, ?_⟩, ?_, List.nil_prefix, List.prefix_refl _, hkept⟩
    · rw [exec_openInOut he.1 he.2, World.setStream_files]
      exact hc
    · intro x hx
      cases hx
    · rw [exec_openInOut he.1 he.2, World.setStream_streams_self]
  · simp only [Env.exec, FileOp.effect, World.log_files, he, ↓reduceIte, Bool.false_eq_true] at hok

theorem close_notAhead {env : Env} (hs : env.Steady) {w : World}
    (hw : NotAhead files m out chunks w) (hpending : (w.streams out).pending = []) :
    Prog.Safe env.exec cutAfter (NotAhead files m out chunks) (call (.close out)) w
      fun _ => NotAhead files m out chunks := by
  have hckpt := checkpointPath_ne out
  have hsame := (exec_same env (.close out) w _ (not_mem_touches hckpt rfl)).files
  have hexec := exec_close (hs w.history.length (.close out) rfl)
  have hlog : ((w.log (.close out)).streams out).pending = [] := hpending
  have hclosed : NotAhead files m out chunks (env.exec (.close out) w).2 := by
    apply hw.congr _ _ hsame
    · rw [hexec, World.setStream_files, World.flush_files_settled hlog, World.log_files]
    · rw [hexec]
      rfl
  apply Prog.Safe.perform
  · intro k
    have hcut := cutAfter_same k (.close out) w _ (not_mem_touches hckpt rfl)
    exact hw.congr (World.drain_files_settled hpending k) rfl hcut.files
  · exact hclosed
  · exact hclosed

/-- The transfer from the preparation of the output to the end of the loop. -/
theorem receiveFileChunks_notAhead {env : Env} (hs : env.Steady) (hm : m.Planned)
    (t : ProgressTracker) (s : TcpSocket) (ho : s.isOpen = true)
    (hthrough : env.WritesThrough out
      (acceptChunks m (requestedChunks files m out) s.incoming).chunks) (fresh : Bool) (w : World)
    (hw : w.files (checkpointPathForOutput out) =
      some (checkpointText (startingCheckpoint files m out))) :
    Prog.Safe env.exec cutAfter
      (NotAhead files m out (acceptChunks m (requestedChunks files m out) s.incoming).chunks)
      (receiveFileChunks s out (checkpointPathForOutput out) m (requestedChunks files m out)
        (startingCheckpoint files m out) t fresh) w
      fun _ => NotAhead files m out
        (acceptChunks m (requestedChunks files m out) s.incoming).chunks := by
  have hplanned := acceptChunks_planned hm (requestedChunks files m out) s.incoming
  have hnodup := nodup_acceptChunks files m out s.incoming
  generalize hall : (acceptChunks m (requestedChunks files m out) s.incoming).chunks = chunks
    at hthrough hplanned hnodup ⊢
  have hcalls : Prog.Calls (fun o : FileOp => ∀ q ∈ o.touches, q = out)
      (prepareOutputFile out fresh) := by
    apply calls_prepareOutputFile
    · intro p q hq
      cases hq
    · exact ⟨eq_of_mem_touches rfl, fun _ => eq_of_mem_touches rfl,
        fun _ => eq_of_mem_touches rfl, eq_of_mem_touches rfl⟩
    · intro _
      exact eq_of_mem_touches rfl
  -- until the loop begins only the output is touched
  refine (beside_notAhead env chunks hcalls hw).bind ?_
  intro prepared w1 hw1
  cases prepared with
  | false => exact Prog.Safe.pure (notAhead_of_start hw1) (notAhead_of_start hw1)
  | true =>
    rw [if_pos rfl]
    refine (openInOut_onDisk env chunks hw1).bind ?_
    rintro opened w2 ⟨hw2, hready⟩
    cases opened with
    | false => exact Prog.Safe.pure hw2 hw2
    | true =>
      rw [if_pos rfl]
      have hloop := (onDisk_rules hs hthrough hplanned hnodup).safe hm
        (requestedChunks files m out) [] t s w2 ho hall (hready rfl)
      rw [List.map_nil, withChunks_nil] at hloop
      refine hloop.bind ?_
      rintro result w3 ⟨hw3, hpending⟩
      refine (close_notAhead hs hw3 hpending).bind ?_
      intro _ w4 hw4
      exact Prog.Safe.pure hw4 hw4

theorem verifyOutput_notAhead {env : Env} (hs : env.Steady) (s : TcpSocket) (w : World)
    (hw : NotAhead files m out chunks w) :
    Prog.Safe env.exec cutAfter (NotAhead files m out chunks)
      (verifyOutput s out (checkpointPathForOutput out) m) w
      fun _ => NotAhead files m out chunks := by
  have hcalls : Prog.Calls
      (fun o : FileOp => o.touches = [] ∨ o = .remove (checkpointPathForOutput out))
      (verifyOutput s out (checkpointPathForOutput out) m) :=
    calls_verifyOutput (fun _ => Or.inl rfl) (Or.inr rfl) out m s
  apply Prog.Calls.safe env.exec hcalls hw
  · rintro o t (ho | rfl) ht
    · have hsame (q : Bytes) : World.Same q t (env.exec o t).2 := by
        apply exec_same
        rw [ho]
        exact List.not_mem_nil
      exact ht.congr (hsame _).files (hsame _).writesTo (hsame _).files
    · right
      left
      exact (exec_remove_files (hs _ _ rfl)).1
  · rintro k o t (ho | rfl) ht
    · have hsame (q : Bytes) : World.Same q t (cutAfter k o t) := by
        apply cutAfter_same
        rw [ho]
        exact List.not_mem_nil
      exact ht.congr (hsame _).files (hsame _).writesTo (hsame _).files
    · exact ht

/-- A whole session keeps `I` wherever it is killed, when the initial save, the chunks and the
verification do; `E` holds between the last two. -/
theorem receiverSession_safe {env : Env} (hs : env.Steady) (dir : Bytes) (files : Files) (s : TcpSocket)
    (ho : s.isOpen = true) {I E : World → Prop}
    (found : ∀ t, (∀ q, World.Same q (boot files) t) → I t)
    (saving : ∀ w t, (∀ q, World.Same q (boot files) w) →
      Saving (checkpointPathForOutput (outputPathFor dir m))
        (startingCheckpoint files m (outputPathFor dir m)) w t → I t)
    (transfer : ∀ w w' client t, (∀ q, World.Same q (boot files) w) →
      SaveEnd env (checkpointPathForOutput (outputPathFor dir m))
        (startingCheckpoint files m (outputPathFor dir m)) w true w' →
      client.isOpen = true → client.incoming = s.incoming →
      Prog.Safe env.exec cutAfter I (receiveFileChunks client (outputPathFor dir m)
        (checkpointPathForOutput (outputPathFor dir m)) m
        (requestedChunks files m (outputPathFor dir m))
        (startingCheckpoint files m (outputPathFor dir m)) t
        (resumed files m (outputPathFor dir m)).isNone) w' fun _ => E)
    (between : ∀ w, E w → I w)
    (verify : ∀ w client, E w → Prog.Safe env.exec cutAfter I (verifyOutput client
      (outputPathFor dir m) (checkpointPathForOutput (outputPathFor dir m)) m) w fun _ _ => True) :
    Prog.Safe env.exec cutAfter I (receiverSession dir m s) (boot files) fun _ _ => True := by
  rw [receiverSession_eq]
  generalize outputPathFor dir m = out at saving transfer verify ⊢
  -- the files stay as they were found until the initial save
  refine ((loadedCheckpoint_safe hs files m out).mono found fun _ _ h => h).bind ?_
  rintro _ w ⟨rfl, hsame⟩
  have hstart : (resumed files m out).getD (createCheckpointFromManifest m) =
      startingCheckpoint files m out := rfl
  have hrequest : missingChunks (startingCheckpoint files m out) = requestedChunks files m out :=
    rfl
  simp only [continueSession, hstart, hrequest]
  have hsends := s.sendAll_sends (serializeContinueRequest {
    sessionId := m.sessionId
    totalChunks := m.chunkCount
    missingChunkIndexes := requestedChunks files m out }) ho
  rw [sendContinueRequest]
  generalize s.sendAll _ = sent at hsends
  obtain ⟨ok, client⟩ := sent
  cases ok with
  | false => exact Prog.Safe.pure (found w hsame) trivial
  | true =>
    rw [if_pos rfl]
    refine ((saveCheckpoint_safe hs _ _ w).mono (fun t => saving w t hsame) fun _ _ h => h).bind ?_
    intro saved w1 hend
    cases saved with
    | false => exact Prog.Safe.pure (saving w w1 hsame hend.saving) trivial
    | true =>
      rw [if_pos rfl]
      refine (transfer w w1 client _ hsame hend (hsends.isOpen.trans ho) hsends.incoming).bind ?_
      rintro ⟨failed, t, client'⟩ w2 hw2
      cases failed with
      | some exit => exact Prog.Safe.pure (between w2 hw2) trivial
      | none => exact verify w2 client' hw2

theorem receiverSession_notAhead {env : Env} (hs : env.Steady) (dir : Bytes) (m : FileManifest)
    (hm : m.Planned) (files : Files) (s : TcpSocket) (ho : s.isOpen = true)
    (hthrough : env.WritesThrough (outputPathFor dir m) (acceptChunks m
      (requestedChunks files m (outputPathFor dir m)) s.incoming).chunks) :
    Prog.Safe env.exec cutAfter
      (NotAhead files m (outputPathFor dir m) (acceptChunks m
        (requestedChunks files m (outputPathFor dir m)) s.incoming).chunks)
      (receiverSession dir m s) (boot files) fun _ _ => True := by
  have hne := Ne.symm (checkpointPath_ne (outputPathFor dir m))
  have hnt := Ne.symm (temporaryPath_checkpointPath_ne (outputPathFor dir m))
  apply receiverSession_safe (E := NotAhead files m (outputPathFor dir m) (acceptChunks m
    (requestedChunks files m (outputPathFor dir m)) s.incoming).chunks) hs dir files s ho
  -- the files stay as they were found until the initial save
  · intro t ht
    exact Or.inl ⟨(ht _).writesTo, (ht _).files⟩
  · intro w t hsame ht
    -- the initial save lists no chunk that was not there
    rcases ht.file with hf | hf | hf
    · have hkept := (hsame _).trans (ht.same _ hne hnt)
      exact Or.inl ⟨hkept.writesTo, hf.trans (hsame _).files⟩
    · exact Or.inr (Or.inl hf)
    · exact notAhead_of_start hf
  · intro w w' client t hsame hend hopen hin
    rw [← hin] at hthrough ⊢
    exact receiveFileChunks_notAhead hs hm t client hopen hthrough _ w' (hend.saved rfl).1
  · exact fun _ h => h
  · intro w client hw
    exact (verifyOutput_notAhead hs client w hw).mono (fun _ h => h) fun _ _ _ => trivial

/-- When the write of each chunk goes through to the disk, the checkpoint is ahead of it at no point
where the receiver may be killed, also when an opening or a renaming fails. -/
theorem checkpoint_not_ahead (dir : Bytes) (files : Files) (s : TcpSocket) (ho : s.isOpen = true)
    (m : FileManifest) (hm : (receiveFileManifest s).1 = some m) (env : Env) (hs : env.Steady)
    (hthrough : env.WritesThrough (outputPathFor dir m) (acceptChunks m
      (requestedChunks files m (outputPathFor dir m)) (receiveFileManifest s).2.incoming).chunks)
    (k n : ℕ) :
    NotAhead files m (outputPathFor dir m) (acceptChunks m
        (requestedChunks files m (outputPathFor dir m)) (receiveFileManifest s).2.incoming).chunks
      (Prog.crash env.exec (cutAfter k) n (receiver dir s) (boot files)) := by
  obtain ⟨henc, hopen, hreceiver⟩ := receiver_of_received dir s ho m hm
  rw [hreceiver]
  exact (receiverSession_notAhead hs dir m henc.planned files _ hopen hthrough).always k n

theorem checkpoint_not_ahead_first :
    NotAhead emptyDirectory smallManifest (outputPathFor (ascii "in") smallManifest)
      (acceptChunks smallManifest (requestedChunks emptyDirectory smallManifest
        (outputPathFor (ascii "in") smallManifest))
        (receiveFileManifest firstChunkOnly).2.incoming).chunks
      (Prog.crash Env.direct.exec (cutAfter 0) 16 (receiver (ascii "in") firstChunkOnly)
        (boot emptyDirectory)) :=
  checkpoint_not_ahead (ascii "in") emptyDirectory firstChunkOnly rfl smallManifest
    firstChunkOnly_received Env.direct Env.direct_reliable.steady (fun _ _ _ => rfl) 0 16

/-- A system whose streams keep each write in their buffer until the next seek or the close. -/
def Env.buffering : Env where
  kept := fun _ o => match o with
    | .write _ data => data.length
    | _ => 0

/-- Killed behind the save that records the first chunk: the checkpoint lists the chunk, and the
output is empty. -/
theorem checkpoint_ahead :
    Env.buffering.Reliable ∧
      (acceptChunks smallManifest (requestedChunks emptyDirectory smallManifest
        (outputPathFor (ascii "in") smallManifest))
        (receiveFileManifest firstChunkOnly).2.incoming).chunks = [(0, [7, 7])] ∧
      (Prog.crash Env.buffering.exec (cutAfter 0) 16 (receiver (ascii "in") firstChunkOnly)
        (boot emptyDirectory)).files
          (checkpointPathForOutput (outputPathFor (ascii "in") smallManifest)) =
        some (checkpointText ((createCheckpointFromManifest smallManifest).withChunks [0])) ∧
      (Prog.crash Env.buffering.exec (cutAfter 0) 16 (receiver (ascii "in") firstChunkOnly)
        (boot emptyDirectory)).files (outputPathFor (ascii "in") smallManifest) = some [] := by
  refine ⟨fun _ _ => rfl, ?_, ?_, ?_⟩
  · decide +kernel
  · decide +kernel
  · decide +kernel

end PacketBridge
