import PacketBridge.FreshStop
import PacketBridge.Interference

/-! Runs of the receiver that are killed at any point: what the directory says about the file
afterwards, and that a later run completes the transfer. -/
namespace PacketBridge
open Foundations

attribute [local irreducible] sha256File

def ChunksStand (m : FileManifest) (out content : Bytes) (kept : AscSet UInt64) (w : World) :
    Prop :=
  ∀ i ∈ kept, ∃ c, w.files out = some c ∧ HoldsAt c (m.chunkOffset i) (fileChunk m content i)

/-- They stand there, and nothing is in the buffer of the output. -/
structure ChunksKept (m : FileManifest) (out content : Bytes) (kept : AscSet UInt64) (w : World) :
    Prop where
  stand : ChunksStand m out content kept w
  pending : (w.streams out).pending = []

/-- What the directory says about the file at a path is true: the output is not longer than the file,
and each chunk that a matching checkpoint lists stands in it. -/
structure Vouched (files : Files) (m : FileManifest) (out content : Bytes) : Prop where
  short : ∀ c, files out = some c → c.length ≤ content.length
  listed : ∀ cp, reloaded files (checkpointPathForOutput out) = some cp →
    checkpointMatchesManifest cp m = true → ∀ i ∈ cp.completedChunks,
      ∃ c, files out = some c ∧ HoldsAt c (m.chunkOffset i) (fileChunk m content i)

variable {env : Env} {m : FileManifest} {out content : Bytes} {kept : AscSet UInt64}

section Kept

variable {w w' : World}

theorem ChunksStand.congr (h : ChunksStand m out content kept w)
    (hout : w'.files out = w.files out) : ChunksStand m out content kept w' := by
  intro i hi
  rw [hout]
  exact h i hi

theorem ChunksKept.congr (h : ChunksKept m out content kept w) (hs : World.Same out w w') :
    ChunksKept m out content kept w' := by
  refine ⟨h.stand.congr hs.files, ?_⟩
  rw [hs.streams]
  exact h.pending

theorem aside_kept (env : Env) {α : Type} {p : FileProg α}
    (hp : Prog.Calls (fun o : FileOp => out ∉ o.touches) p) (h : ChunksKept m out content kept w) :
    Prog.Safe env.exec cutAfter (ChunksKept m out content kept) p w
      fun _ => ChunksKept m out content kept := by
  apply Prog.Calls.safe env.exec hp h
  · intro o t ho ht
    exact ht.congr (exec_same env o t out ho)
  · intro k o t ho ht
    exact ht.congr (cutAfter_same k o t out ho)

theorem ChunksStand.writeAt (hm : m.Planned) (hsize : m.fileSize.toNat = content.length)
    (hrange : ∀ i ∈ kept, i < m.chunkCount) (h : ChunksStand m out content kept w)
    {j : UInt64} (hj : j ∉ kept) (data : Bytes) (hdata : data.length ≤ m.chunkLength j)
    (hfile : w'.files out = (w.files out).map fun c => writeAt c (m.chunkOffset j) data) :
    ChunksStand m out content kept w' := by
  intro i hi
  obtain ⟨c, hc, hholds⟩ := h i hi
  rw [hc, Option.map_some] at hfile
  refine ⟨_, hfile, holdsAt_writeAt_beside _ _ _ _ _ hholds ?_⟩
  have hlen := length_fileChunk hm hsize (hrange i hi)
  have hne : i ≠ j := by
    rintro rfl
    exact hj hi
  rcases lt_or_gt_of_ne hne with hij | hji
  · have := m.chunk_end_le_chunkOffset hij
    left
    omega
  · have := m.chunk_end_le_chunkOffset hji
    right
    omega

end Kept

/-- The seek of a turn leaves them, and the stream at the place of the chunk, or not good. -/
theorem seekp_kept (hs : env.Steady) (offset : UInt64) {w : World}
    (h : ChunksKept m out content kept w) :
    Prog.Safe env.exec cutAfter (ChunksStand m out content kept) (call (.seekp out offset)) w
      fun _ t => ChunksKept m out content kept t ∧ ((t.streams out).good = true →
        offset.toNat < maxOffset ∧ (t.streams out).position = offset.toNat) := by
  have hseek := exec_seekp_settled (hs w.history.length (.seekp out offset) rfl) h.pending
  have hsought : ChunksKept m out content kept (env.exec (.seekp out offset) w).2 :=
    ⟨h.stand.congr hseek.1, hseek.2.1⟩
  apply Prog.Safe.perform
  · intro k
    exact h.stand.congr (World.drain_files_settled h.pending k)
  · exact hsought.stand
  · exact ⟨hsought, hseek.2.2⟩

theorem write_kept (hs : env.Steady) {x : UInt64 × Bytes}
    (hthrough : ∀ n, env.kept n (.write out x.2) = 0) (hm : m.Planned)
    (hsize : m.fileSize.toNat = content.length) (hrange : ∀ i ∈ kept, i < m.chunkCount) {w : World}
    (h : ChunksKept m out content kept w) (hnew : x.1 ∉ kept)
    (hlen : x.2.length = m.chunkLength x.1) (hg : (w.streams out).good = true)
    (hpos : (w.streams out).position = m.chunkOffset x.1) :
    Prog.Safe env.exec cutAfter (ChunksStand m out content kept) (call (.write out x.2)) w
      fun _ => ChunksKept m out content kept := by
  obtain ⟨hok, hfile, hpend⟩ := exec_write_settled (hs w.history.length (.write out x.2) rfl)
    (hthrough _) hg h.pending
  rw [hpos] at hfile
  have hwritten : ChunksKept m out content kept (env.exec (.write out x.2) w).2 :=
    ⟨h.stand.writeAt hm hsize hrange hnew _ hlen.le hfile, hpend⟩
  apply Prog.Safe.perform
  · intro k
    -- also a part of the chunk stays beside them
    have hcut := cutAfter_write_settled x.2 k hg h.pending
    rw [hpos] at hcut
    apply h.stand.writeAt hm hsize hrange hnew _ _ hcut
    rw [List.length_take, ← hlen]
    exact Nat.min_le_right _ _
  · exact hwritten.stand
  · exact hwritten

/-- The turns of the loop leave the chunks that the session has not asked for. -/
theorem kept_rules (hs : env.Steady) (hm : m.Planned) (hsize : m.fileSize.toNat = content.length)
    (hrange : ∀ i ∈ kept, i < m.chunkCount) (cp : TransferCheckpoint)
    (all : List (UInt64 × Bytes)) (hthrough : env.WritesThrough out all) (hall : ∀ x ∈ all, x.1 ∉ kept) :
    LoopRules env m out (checkpointPathForOutput out) cp all (ChunksStand m out content kept)
      (ChunksKept m out content kept) (fun _ => ChunksKept m out content kept)
      (fun _ => ChunksKept m out content kept) where
  ended := fun _ h => h.stand
  ready := fun _ _ h => h
  store := by
    intro done x offset w h hx hoff hfront
    refine (seekp_kept hs offset h).bind ?_
    rintro _ t ⟨ht, hplace⟩
    cases hg : (t.streams out).good with
    | false =>
      have hlog : ChunksKept m out content kept (t.log (.write out x.2)) :=
        ⟨ht.stand.congr rfl, ht.pending⟩
      refine (write_bad_safe hg ht.stand hlog.stand).mono (fun _ h => h) ?_
      rintro _ _ ⟨rfl, rfl⟩
      exact ⟨fun hb => absurd hb Bool.false_ne_true, fun _ => hlog⟩
    | true =>
      obtain ⟨hnear, hpos⟩ := hplace hg
      have hmem : x ∈ all := (hfront hnear).subset (List.mem_append_right _ List.mem_cons_self)
      have hnew : x.1 ∉ kept := hall x hmem
      refine (write_kept hs (fun n => hthrough n x hmem) hm hsize hrange ht hnew hx.2 hg
        (hpos.trans hoff)).mono (fun _ h => h) ?_
      exact fun _ t' hwritten => ⟨fun _ => ⟨hnear, hwritten⟩, fun _ => hwritten⟩
  save := by
    intro done w h
    refine (aside_kept env (calls_saveCheckpoint (admits_beside out)
      (cp.withChunks (done.map Prod.fst))) h).mono (fun _ h => h.stand) ?_
    exact fun _ _ h => ⟨fun _ => h, fun _ => h⟩

/-- Opening an output that is there, and closing one with nothing in its buffer. -/
theorem exec_kept (hs : env.Steady) {w : World} {o : FileOp}
    (ho : o = .openInOut out ∨ o = .close out) (h : ChunksKept m out content kept w) :
    Prog.Safe env.exec cutAfter (ChunksStand m out content kept) (call o) w
      fun _ => ChunksKept m out content kept := by
  rcases ho with rfl | rfl
  · have hopened : ChunksKept m out content kept (env.exec (.openInOut out) w).2 := by
      simp only [Env.exec, FileOp.effect]
      split
      all_goals
        refine ⟨h.stand.congr rfl, ?_⟩
        rw [World.setStream_streams_self]
    exact Prog.Safe.perform (fun _ => h.stand) hopened.stand hopened
  · have hclosed : ChunksKept m out content kept (env.exec (.close out) w).2 := by
      rw [exec_close (hs _ _ rfl)]
      refine ⟨h.stand.congr ?_, ?_⟩
      · exact World.flush_files_settled (w := w.log (.close out)) h.pending
      · rw [World.setStream_streams_self]
    apply Prog.Safe.perform
    · intro k
      exact h.stand.congr (World.drain_files_settled h.pending k)
    · exact hclosed.stand
    · exact hclosed

/-- A transfer into an output that is kept leaves the chunks it has not asked for. -/
theorem receiveFileChunks_stand (hs : env.Steady) (hm : m.Planned)
    (hsize : m.fileSize.toNat = content.length) (cp : TransferCheckpoint)
    (hrange : ∀ i ∈ cp.completedChunks, i < m.chunkCount) (t : ProgressTracker) (s : TcpSocket)
    (ho : s.isOpen = true)
    (hthrough : env.WritesThrough out (acceptChunks m (missingChunks cp) s.incoming).chunks)
    (w : World) (hw : ChunksKept m out content cp.completedChunks w) :
    Prog.Safe env.exec cutAfter (ChunksStand m out content cp.completedChunks)
      (receiveFileChunks s out (checkpointPathForOutput out) m (missingChunks cp) cp t false) w
      fun _ => ChunksKept m out content cp.completedChunks := by
  have hnew : ∀ x ∈ (acceptChunks m (missingChunks cp) s.incoming).chunks,
      x.1 ∉ cp.completedChunks := by
    intro x hx
    have hfront := acceptChunks_prefix m (missingChunks cp) s.incoming
    exact ((mem_missingChunks cp x.1).mp (hfront.subset (List.mem_map_of_mem hx))).2
  rw [receiveFileChunks, prepareOutputFile, if_neg Bool.false_ne_true]
  have hexists := (aside_kept env (calls_fileExists (not_mem_touches_read out) out) hw).mono
    (fun _ h => h.stand) fun _ _ h => h
  refine hexists.bind ?_
  intro prepared w1 hw1
  split
  · refine (exec_kept hs (Or.inl rfl) hw1).bind ?_
    intro opened w2 hw2
    cases opened with
    | false => exact Prog.Safe.pure hw2.stand hw2
    | true =>
      rw [if_pos rfl]
      have hloop := (kept_rules hs hm hsize hrange cp _ hthrough hnew).safe hm (missingChunks cp) []
        t s w2 ho rfl hw2
      rw [List.map_nil, withChunks_nil] at hloop
      refine hloop.bind ?_
      intro result w3 hw3
      refine (exec_kept hs (Or.inr rfl) hw3).bind ?_
      intro _ w4 hw4
      exact Prog.Safe.pure hw4.stand hw4
  · exact Prog.Safe.pure hw1.stand hw1

/-- A session that resumes leaves the chunks it starts with, wherever it is killed. -/
theorem receiverSession_stand (hs : env.Steady) (hm : m.Planned) (dir : Bytes)
    (hsize : m.fileSize.toNat = content.length) {files : Files} (s : TcpSocket)
    (ho : s.isOpen = true) (hthrough : env.WritesThrough (outputPathFor dir m)
      (acceptChunks m (requestedChunks files m (outputPathFor dir m)) s.incoming).chunks)
    {cp : TransferCheckpoint}
    (hres : resumed files m (outputPathFor dir m) = some cp)
    (hstand : ChunksStand m (outputPathFor dir m) content cp.completedChunks (boot files)) :
    Prog.Safe env.exec cutAfter
      (ChunksStand m (outputPathFor dir m) content cp.completedChunks)
      (receiverSession dir m s) (boot files) fun _ _ => True := by
  have hmatch := (resumed_eq_some.mp hres).2.2
  have hrange := ((checkpointMatchesManifest_iff cp m).mp hmatch).2.2.2.2
  have hstart : ChunksKept m (outputPathFor dir m) content cp.completedChunks (boot files) :=
    ⟨hstand, rfl⟩
  have hne := Ne.symm (checkpointPath_ne (outputPathFor dir m))
  have hnt := Ne.symm (temporaryPath_checkpointPath_ne (outputPathFor dir m))
  apply receiverSession_safe hs dir files s ho
  · intro t ht
    exact hstand.congr (ht _).files
  · intro w t hsame ht
    exact hstand.congr ((hsame _).trans (ht.same _ hne hnt)).files
  · intro w w' client t hsame hend hopen hin
    have hkept := hstart.congr ((hsame _).trans (hend.saving.same _ hne hnt))
    rw [requestedChunks, startingCheckpoint, hres, Option.getD_some, ← hin] at hthrough
    rw [requestedChunks, startingCheckpoint, hres, Option.getD_some, Option.isNone_some]
    exact receiveFileChunks_stand hs hm hsize cp hrange t client hopen hthrough w' hkept
  · exact fun _ h => h.stand
  · intro w client hw
    have hverify := aside_kept env (calls_verifyOutput (not_mem_touches_read (outputPathFor dir m))
      (admits_beside (outputPathFor dir m)).remove (outputPathFor dir m) m client) hw
    exact hverify.mono (fun _ h => h.stand) fun _ _ _ => trivial

/-- From such a directory a session starts with the chunks of the file. -/
theorem Vouched.trusted {files : Files} (h : Vouched files m out content) :
    Trusted files m out content := by
  intro cp c hres hc
  obtain ⟨-, ⟨text, htext, hparse⟩, hmatch⟩ := resumed_eq_some.mp hres
  refine ⟨h.short c hc, ?_⟩
  intro i hi
  have hread : reloaded files (checkpointPathForOutput out) = some cp := by
    rw [reloaded_eq, htext, Option.bind_some, hparse]
  obtain ⟨c', hc', hholds⟩ := h.listed cp hread hmatch i hi
  rw [hc, Option.some.injEq] at hc'
  rwa [hc']

theorem Vouched.of_none {files : Files} (hshort : ∀ c, files out = some c → c.length ≤ content.length)
    (h : files (checkpointPathForOutput out) = none) : Vouched files m out content := by
  refine ⟨hshort, ?_⟩
  intro cp hcp
  rw [reloaded_eq, h] at hcp
  cases hcp

/-- The chunks of the checkpoint that a session starts with stand in the output at any point where
it is killed. -/
theorem Vouched.stand (hs : env.Steady) (hm : m.Planned) (dir : Bytes)
    (hsize : m.fileSize.toNat = content.length) {files : Files}
    (h : Vouched files m (outputPathFor dir m) content) (s : TcpSocket) (ho : s.isOpen = true)
    (hthrough : env.WritesThrough (outputPathFor dir m)
      (acceptChunks m (requestedChunks files m (outputPathFor dir m)) s.incoming).chunks) (k n : ℕ) :
    ChunksStand m (outputPathFor dir m) content
      (startingCheckpoint files m (outputPathFor dir m)).completedChunks
      (Prog.crash env.exec (cutAfter k) n (receiverSession dir m s) (boot files)) := by
  rw [startingCheckpoint]
  cases hres : resumed files m (outputPathFor dir m) with
  | none =>
    intro i hi
    exact absurd hi (AscSet.not_mem_empty i)
  | some cp =>
    rw [Option.getD_some]
    refine (receiverSession_stand hs hm dir hsize s ho hthrough hres ?_).always k n
    obtain ⟨-, ⟨text, htext, hparse⟩, hmatch⟩ := resumed_eq_some.mp hres
    apply h.listed cp _ hmatch
    rw [reloaded_eq, htext, Option.bind_some, hparse]

/-- A session over the stream of an honest sender, killed at any point, leaves such a directory. -/
theorem Vouched.killed (hs : env.Steady) (hm : m.Planned) (dir : Bytes)
    (hsize : m.fileSize.toNat = content.length) {files : Files}
    (h : Vouched files m (outputPathFor dir m) content) (s : TcpSocket) (ho : s.isOpen = true)
    (hthrough : env.WritesThrough (outputPathFor dir m)
      (acceptChunks m (requestedChunks files m (outputPathFor dir m)) s.incoming).chunks)
    (hx : ∀ x ∈ (acceptChunks m (requestedChunks files m (outputPathFor dir m)) s.incoming).chunks,
      x.2 = fileChunk m content x.1) (k n : ℕ) :
    Vouched (Prog.crash env.exec (cutAfter k) n (receiverSession dir m s) (boot files)).files m
      (outputPathFor dir m) content := by
  have hstand := h.stand hs hm dir hsize s ho hthrough k n
  have hnot := (receiverSession_notAhead hs dir m hm files s ho hthrough).always k n
  have hshort := h.short
  rw [← hsize] at hshort
  have hwithin := ((receiverSession_within hs hm dir s ho hshort).always k n).content
  rw [hsize] at hwithin
  generalize Prog.crash env.exec (cutAfter k) n (receiverSession dir m s) (boot files) = w
    at hstand hnot hwithin
  generalize outputPathFor dir m = out at h hx hstand hnot hwithin ⊢
  refine ⟨hwithin, ?_⟩
  intro cp hcp hmatch i hi
  rcases hnot.listed hx hcp with hsame | hlisted
  · -- the old checkpoint: the session started from it, or it lists nothing
    rw [reloaded_eq, hsame, ← reloaded_eq] at hcp
    obtain ⟨c, hc, -⟩ := h.listed cp hcp hmatch i hi
    rw [reloaded_eq, Option.bind_eq_some_iff] at hcp
    have hres : resumed files m out = some cp := resumed_eq_some.mpr ⟨⟨c, hc⟩, hcp, hmatch⟩
    rw [startingCheckpoint, hres, Option.getD_some] at hstand
    exact hstand i hi
  · rcases hlisted i hi with hin | hholds
    · exact hstand i hin
    · exact hholds

structure NamesApart (f g : Bytes) : Prop where
  ne : sanitizeFilename f ≠ sanitizeFilename g
  left : ¬ Clash (sanitizeFilename f) (sanitizeFilename g)
  right : ¬ Clash (sanitizeFilename g) (sanitizeFilename f)

/-- The directories that runs of the receiver can leave. A run is against an honest sender of the
file, over a connection that may be cut anywhere, with any request reaching the sender, on a system
where an opening or a renaming may fail; or it is for another file, with any sender, on any system.
Each run may be killed at any of its calls or in the middle of one. The first finds no checkpoint of
the file, and no output longer than the file. -/
inductive KilledRuns (dir filePath content : Bytes) : Files → Prop where
  | start (files : Files)
    (hckpt : files (checkpointPathForOutput
      (outputPathFor dir (senderManifest filePath content))) = none)
    (hshort : ∀ c, files (outputPathFor dir (senderManifest filePath content)) = some c →
      c.length ≤ content.length) : KilledRuns dir filePath content files
  | killed {files : Files} (before : KilledRuns dir filePath content files) (env : Env)
    (hs : env.Steady)
    (a b : TcpSocket) (openSender : a.isOpen = true) (openReceiver : b.isOpen = true)
    (sentNothing : a.sent = []) (toReceiver : b.incoming <+: (sender filePath content a).2.sent)
    (hthrough : env.WritesThrough (outputPathFor dir (senderManifest filePath content))
      (acceptChunks (senderManifest filePath content)
        (requestedChunks files (senderManifest filePath content)
          (outputPathFor dir (senderManifest filePath content)))
        (receiveFileManifest b).2.incoming).chunks)
    (k n : ℕ) : KilledRuns dir filePath content
      (Prog.crash env.exec (cutAfter k) n (receiver dir b) (boot files)).files
  | other {files : Files} (before : KilledRuns dir filePath content files) (env : Env)
    (s : TcpSocket) (m : FileManifest) (hm : (receiveFileManifest s).1 = some m)
    (happart : NamesApart (senderManifest filePath content).filename m.filename) (k n : ℕ) :
    KilledRuns dir filePath content
      (Prog.crash env.exec (cutAfter k) n (receiver dir s) (boot files)).files

theorem Vouched.congr {files files' : Files} (h : Vouched files m out content)
    (hout : files' out = files out)
    (hckpt : files' (checkpointPathForOutput out) = files (checkpointPathForOutput out)) :
    Vouched files' m out content := by
  constructor
  · rw [hout]
    exact h.short
  · rw [reloaded_eq, hckpt, ← reloaded_eq, hout]
    exact h.listed

/-- Whatever the directory says about the file after such runs is true. -/
theorem KilledRuns.vouched {dir filePath : Bytes} {files : Files} (hc : Sendable content)
    (hn : (senderManifest filePath content).filename.length ≤ kMaxFilenameLength)
    (h : KilledRuns dir filePath content files) :
    Vouched files (senderManifest filePath content)
      (outputPathFor dir (senderManifest filePath content)) content := by
  induction h with
  | start files hckpt hshort => exact Vouched.of_none hshort hckpt
  | @killed files before env hs a b openSender openReceiver sentNothing toReceiver hthrough k n ih =>
    have henc := senderManifest_encodable filePath content hn
    obtain ⟨idxs, part, hsent, hpart⟩ := sender_sends filePath hc hn a openSender
    rw [hsent, sentNothing, List.nil_append] at toReceiver
    cases hreceived : (receiveFileManifest b).1 with
    | none =>
      generalize hb : receiveFileManifest b = received at hreceived
      obtain ⟨manifest, s⟩ := received
      obtain rfl := hreceived
      rw [receiver, hb]
      simp only [Prog.crash_pure]
      exact ih
    | some m =>
      -- the manifest is the sender's, and what follows is the beginning of a transfer
      obtain ⟨rfl, hrest⟩ := received_honest henc (withoutDigest_senderManifest _ _) b openReceiver _
        (toReceiver.trans hpart) m hreceived
      obtain ⟨-, hopen, hreceiver⟩ := receiver_of_received dir b openReceiver _ hreceived
      have hsize : (senderManifest filePath content).fileSize.toNat = content.length :=
        hc.fileSize_toNat
      rw [hreceiver]
      exact ih.killed hs henc.planned dir hsize _ hopen hthrough
        (acceptChunks_honest henc.planned hsize idxs _ _ hrest) k n
  | @other files before env s m hm happart k n ih =>
    have halone := leavesAlone_of_disjoint dir _ m.filename
      ((transferPaths_disjoint_iff dir _ m.filename happart.ne).mpr ⟨happart.left, happart.right⟩)
    have hpaths (q : Bytes) (hq : q ∈ (transferPaths dir
        (senderManifest filePath content).filename).take 2) :=
      (halone env files s m hm rfl q hq k n).2
    exact ih.congr (hpaths _ List.mem_cons_self)
      (hpaths _ (List.mem_cons_of_mem _ List.mem_cons_self))

/-- Killed again and again, at any points, and between them used for other files, the receiver can
still complete the transfer: the next run that is left alone ends with success and the file, and
takes the checkpoint away. -/
theorem killed_transfer_resumes (dir filePath content : Bytes)
    (hlimit : (senderManifest filePath content).chunkCount.toNat ≤ 1000000) (files : Files)
    (h : KilledRuns dir filePath content files) (env : Env) (a b : TcpSocket)
    (hu : UncutRun env dir files filePath content a b) :
    (Prog.run env.exec (receiver dir b) (boot files)).1.1.code = 0 ∧
      (Prog.run env.exec (receiver dir b) (boot files)).2.files
        (outputPathFor dir (senderManifest filePath content)) = some content ∧
      (Prog.run env.exec (receiver dir b) (boot files)).2.files (checkpointPathForOutput
        (outputPathFor dir (senderManifest filePath content))) = none :=
  hu.completes hlimit (h.vouched hu.sendable hu.nameShort).trusted

/-- The receiver of a file of three bytes, killed in an empty directory behind its ninth call. -/
theorem killed_transfer_resumes_abc :
    ∃ files a b, KilledRuns (ascii "in") (ascii "dir/a.txt") (ascii "abc") files ∧
      UncutRun Env.direct (ascii "in") files (ascii "dir/a.txt") (ascii "abc") a b ∧
      (Prog.run Env.direct.exec (receiver (ascii "in") b) (boot files)).1.1.code = 0 ∧
      (Prog.run Env.direct.exec (receiver (ascii "in") b) (boot files)).2.files
        (ascii "in/received_a.txt") = some (ascii "abc") := by
  have hc : Sendable (ascii "abc") := by decide
  have hcount : (senderManifest (ascii "dir/a.txt") (ascii "abc")).chunkCount.toNat ≤ 1000000 := by
    decide
  have hstart : KilledRuns (ascii "in") (ascii "dir/a.txt") (ascii "abc") emptyDirectory := by
    apply KilledRuns.start _ rfl
    intro c hc
    cases hc
  obtain ⟨a, b, hl, -, -⟩ := linked_exists Env.direct_reliable (ascii "in") emptyDirectory
    (ascii "dir/a.txt") hc (by decide) (requestedChunks_le_limit hcount) 35
  have hkilled := hstart.killed Env.direct Env.direct_reliable.steady a b hl.openSender
    hl.openReceiver hl.sentNothing.1 hl.toReceiver (fun _ _ _ => rfl) 0 9
  obtain ⟨a', b', hu⟩ := uncutRun_exists Env.direct_reliable (ascii "in")
    (Prog.crash Env.direct.exec (cutAfter 0) 9 (receiver (ascii "in") b)
      (boot emptyDirectory)).files (ascii "dir/a.txt") hc (by decide)
    (requestedChunks_le_limit hcount)
  obtain ⟨hcode, hout, -⟩ := killed_transfer_resumes (ascii "in") (ascii "dir/a.txt") (ascii "abc")
    hcount _ hkilled Env.direct a' b' hu
  exact ⟨_, a', b', hkilled, hu, hcode, hout⟩

end PacketBridge
