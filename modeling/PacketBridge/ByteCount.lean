import PacketBridge.Interference
import PacketBridge.ResumableTransfer
import PacketBridge.Sha256Stream

/-! Runs of the receiver in one directory, fed by anyone: how long the output of a run that
reports success is. -/
namespace PacketBridge
open Foundations

/-- The files that runs can leave in an empty directory, with the file names they were given. -/
inductive ReceiverRuns (dir : Bytes) : List Bytes → Files → Prop where
  | start : ReceiverRuns dir [] emptyDirectory
  | run {names : List Bytes} {files : Files} (before : ReceiverRuns dir names files) (env : Env)
    (hr : env.Reliable) (s : TcpSocket) (ho : s.isOpen = true) :
    ReceiverRuns dir (((receiveFileManifest s).1.map FileManifest.filename).toList ++ names)
      (Prog.run env.exec (receiver dir s) (boot files)).2.files

/-- No received file is put where the checkpoint of another is kept. -/
def NoSidecarNames (names : List Bytes) : Prop :=
  ∀ f ∈ names, ∀ g ∈ names, sanitizeFilename f ≠ checkpointPathForOutput (sanitizeFilename g)

instance (names : List Bytes) : Decidable (NoSidecarNames names) :=
  inferInstanceAs (Decidable (∀ f ∈ names, ∀ g ∈ names, _))

/-- A checkpoint beside the output that loads and matches a manifest: the output is no longer than
the file, and long enough for the chunks listed. -/
def Backed (files : Files) (out : Bytes) : Prop :=
  ∀ m cp c, m.Planned → resumed files m out = some cp → files out = some c →
    c.length ≤ m.fileSize.toNat ∧
      ∀ i ∈ cp.completedChunks, m.chunkOffset i+m.chunkLength i ≤ c.length

theorem Backed.congr {files files' : Files} {out : Bytes} (h : Backed files out)
    (hout : files' out = files out)
    (hckpt : files' (checkpointPathForOutput out) = files (checkpointPathForOutput out)) :
    Backed files' out := by
  intro m cp c hm hres hc
  rw [resumed_congr m hout hckpt] at hres
  rw [hout] at hc
  exact h m cp c hm hres hc

theorem Backed.of_none {files : Files} {out : Bytes}
    (h : files out = none ∨ files (checkpointPathForOutput out) = none) : Backed files out := by
  intro m cp c _ hres hc
  obtain ⟨-, ⟨text, htext, -⟩, -⟩ := resumed_eq_some.mp hres
  rcases h with h | h
  · rw [h] at hc
    cases hc
  · rw [h] at htext
    cases htext

/-- What a session starts from, when the output is backed: nothing, or an output of the right
length for the chunks it counts as completed. -/
theorem Backed.start {files : Files} {out : Bytes} (h : Backed files out) {m : FileManifest}
    (hm : m.Planned) : (startingOutput files m out).length ≤ m.fileSize.toNat ∧
      ∀ i ∈ (startingCheckpoint files m out).completedChunks,
        m.chunkOffset i+m.chunkLength i ≤ (startingOutput files m out).length := by
  unfold startingOutput startingCheckpoint
  cases hres : resumed files m out with
  | none =>
    refine ⟨Nat.zero_le _, ?_⟩
    intro i hi
    exact absurd hi (AscSet.not_mem_empty i)
  | some cp =>
    obtain ⟨⟨c, hc⟩, -⟩ := resumed_eq_some.mp hres
    rw [hc]
    exact h m cp c hm hres hc

/-- The output after the chunks of a session: not longer than the file, and long enough for the
chunks the session started with and those it took. -/
theorem Backed.stored {files : Files} {out : Bytes} (h : Backed files out) {m : FileManifest}
    (hm : m.Planned) (bs : Bytes) :
    let chunks := (acceptChunks m (requestedChunks files m out) bs).chunks
    let c := storeChunks m (startingOutput files m out) chunks
    c.length ≤ m.fileSize.toNat ∧
      ∀ i, i ∈ chunks.map Prod.fst ∨ i ∈ (startingCheckpoint files m out).completedChunks →
        m.chunkOffset i+m.chunkLength i ≤ c.length := by
  intro chunks c
  obtain ⟨hlen, hcompleted⟩ := h.start hm
  have hplanned := acceptChunks_planned hm (requestedChunks files m out) bs
  have hnodup : (chunks.map Prod.fst).Nodup := nodup_acceptChunks files m out bs
  refine ⟨length_storeChunks_le hm _ _ hplanned hlen, ?_⟩
  rintro i (hi | hi)
  · obtain ⟨x, hx, rfl⟩ := List.mem_map.mp hi
    have hpos := hm.chunkLength_pos (hplanned x hx).1
    have hholds := holdsAt_storeChunks (startingOutput files m out) chunks hplanned hnodup x hx
    rw [← (hplanned x hx).2] at hpos ⊢
    exact holdsAt_length _ _ _ hholds (List.ne_nil_of_length_pos hpos)
  · calc m.chunkOffset i+m.chunkLength i ≤ (startingOutput files m out).length := hcompleted i hi
      _ ≤ c.length := length_le_storeChunks _ _ _

theorem Backed.session {files : Files} {out : Bytes} (h : Backed files out) {m : FileManifest}
    (hm : m.Planned) {bs : Bytes} {exit : ReceiverExit} {w : World}
    (hend : SessionEnd (fun cp text => text = checkpointText cp) files m out bs exit w) :
    Backed w.files out := by
  by_cases hcode : exit.code = 0
  · exact Backed.of_none (Or.inr (hend.removed hcode))
  · obtain ⟨text, hf, rfl⟩ := hend.checkpoint hcode
    obtain ⟨-, hsize, hchunk, -, -⟩ :=
      (checkpointMatchesManifest_iff _ m).mp (startingCheckpoint_matches files m out)
    obtain ⟨hlen, hall⟩ := h.stored hm bs
    intro m' cp c hm' hres hc
    obtain ⟨-, ⟨text, hf', hp⟩, hmatch⟩ := resumed_eq_some.mp hres
    obtain rfl := Option.some.inj (hf.symm.trans hf')
    obtain rfl := Option.some.inj (hend.output.symm.trans hc)
    -- whatever name was read back, the sizes and the set are those that were saved
    have hfields := fields_of_parseCheckpoint _ _ hp
    rw [hfields, checkpointMatchesManifest_iff] at hmatch
    obtain ⟨-, hsize', hchunk', -, -⟩ := hmatch
    have hsizes : m'.fileSize = m.fileSize := hsize'.symm.trans hsize
    have hchunks : m'.chunkSize = m.chunkSize := hchunk'.symm.trans hchunk
    have hoffset (i : UInt64) : m'.chunkOffset i = m.chunkOffset i := by
      rw [FileManifest.chunkOffset, hchunks, ← FileManifest.chunkOffset]
    refine ⟨by rw [hsizes]; exact hlen, ?_⟩
    intro i hi
    rw [hfields] at hi
    have hi' := (mem_withChunks _ _ i).mp hi
    rw [FileManifest.chunkLength, hoffset, hsizes, hchunks, ← FileManifest.chunkLength]
    exact hall i hi'

/-- A session keeps another output backed, unless one of the two is kept as the checkpoint of the
other. -/
theorem Backed.other {files : Files} {out out' : Bytes} (h : Backed files out') (hne : out' ≠ out)
    (h1 : out' ≠ checkpointPathForOutput out) (h2 : checkpointPathForOutput out' ≠ out)
    {S : TransferCheckpoint → Bytes → Prop} {m : FileManifest} {bs : Bytes} {exit : ReceiverExit}
    {w : World} (hend : SessionEnd S files m out bs exit w) : Backed w.files out' := by
  by_cases htmp : out' = temporaryPath (checkpointPathForOutput out)
  · apply Backed.of_none
    left
    rw [htmp]
    exact hend.temporary
  · apply h.congr (hend.files out' hne h1 htmp)
    apply hend.files _ h2
    · exact fun heq => hne (List.append_cancel_right heq)
    · exact checkpointPath_ne_temporaryPath _ _

theorem noSidecar_path {dir f g : Bytes}
    (h : sanitizeFilename f ≠ checkpointPathForOutput (sanitizeFilename g)) :
    outputPathFor dir { filename := f } ≠
      checkpointPathForOutput (outputPathFor dir { filename := g }) :=
  (outputPathFor_append_iff dir f g _).not.mpr h

/-- In every run on names that keep apart, every output stays backed. -/
theorem ReceiverRuns.backed {dir : Bytes} {names : List Bytes} {files : Files}
    (h : ReceiverRuns dir names files) (all : List Bytes) (hsub : ∀ f ∈ names, f ∈ all)
    (hall : NoSidecarNames all) : ∀ f ∈ all, Backed files (outputPathFor dir { filename := f }) := by
  induction h with
  | start =>
    intro f _
    exact Backed.of_none (Or.inl rfl)
  | @run names files before env hr s ho ih =>
    have ihf := ih fun f hf => hsub f (List.mem_append_right _ hf)
    intro f hf
    have hback := ihf f hf
    cases hreceived : (receiveFileManifest s).1 with
    | none =>
      rw [run_receiver_rejected env dir files s hreceived]
      exact hback
    | some m =>
      have hin : m.filename ∈ all := by
        apply hsub
        rw [hreceived]
        exact List.mem_cons_self
      obtain ⟨henc, hopen, hreceiver⟩ := receiver_of_received dir s ho m hreceived
      obtain ⟨exit, s', w, n, hrun, -, hend⟩ := run_receiverSession henc.planned dir
        (hr.saveLaw _) files (receiveFileManifest s).2 hopen
      rw [hreceiver, hrun]
      rcases hend with ⟨-, hfiles, -⟩ | ⟨hend, -⟩
      · rw [hfiles]
        exact hback
      · by_cases heq : outputPathFor dir { filename := f } = outputPathFor dir m
        · rw [heq] at hback ⊢
          exact hback.session henc.planned hend
        · apply hback.other heq _ _ hend
          · exact noSidecar_path (hall f hf m.filename hin)
          · exact (noSidecar_path (hall m.filename hin f hf)).symm

theorem acceptChunks_done {m : FileManifest} {idxs : List UInt64} {bs : Bytes}
    {exit last : ReceiverExit} (h : exit = (acceptChunks m idxs bs).failed.getD last)
    (hcode : exit.code = 0) :
    (acceptChunks m idxs bs).chunks.map Prod.fst = idxs ∧ exit = last := by
  cases hfailed : (acceptChunks m idxs bs).failed with
  | none =>
    rw [hfailed] at h
    exact ⟨(acceptChunks_failed_eq_none m idxs bs).mp hfailed, h⟩
  | some e =>
    rw [hfailed, Option.getD_some] at h
    rw [h, acceptChunks_failed_code m idxs bs e hfailed] at hcode
    exact absurd hcode one_ne_zero

/-- In every sequence of runs from an empty directory, a run that reports success leaves an output
of the announced size, if that size does not wrap the chunk count and no file of the sequence is
kept as the checkpoint of another. -/
theorem byteCount_holds {dir : Bytes} {names : List Bytes} {files : Files}
    (h : ReceiverRuns dir names files) (env : Env) (hr : env.Reliable) (s : TcpSocket)
    (ho : s.isOpen = true) (m : FileManifest) (hm : (receiveFileManifest s).1 = some m)
    (hwrap : ¬ m.Wraps) (hnames : NoSidecarNames (m.filename :: names))
    (hcode : (Prog.run env.exec (receiver dir s) (boot files)).1.1.code = 0) :
    ∃ content, (Prog.run env.exec (receiver dir s) (boot files)).2.files (outputPathFor dir m) =
      some content ∧ content.length = m.fileSize.toNat := by
  have hback := h.backed (m.filename :: names) (fun f hf => List.mem_cons_of_mem _ hf) hnames
    m.filename List.mem_cons_self
  obtain ⟨henc, hopen, hreceiver⟩ := receiver_of_received dir s ho m hm
  have hplan := henc.planned
  obtain ⟨exit, s', w, n, hrun, -, hend⟩ := run_receiverSession hplan dir (hr.saveLaw _) files
    (receiveFileManifest s).2 hopen
  rw [hreceiver, hrun] at hcode ⊢
  change Backed files (outputPathFor dir m) at hback
  rcases hend with ⟨rfl, -⟩ | ⟨hend, -⟩
  · cases hcode
  · obtain ⟨hlen, hall⟩ := hback.stored hplan (receiveFileManifest s).2.incoming
    obtain ⟨hdone, -⟩ := acceptChunks_done hend.exit_eq hcode
    refine ⟨_, hend.output, le_antisymm hlen ?_⟩
    rcases Nat.eq_zero_or_pos m.fileSize.toNat with hzero | hpos
    · rw [hzero]
      exact Nat.zero_le _
    · -- the chunk with the last byte is there
      obtain ⟨i, hi, hlow, hhigh⟩ := hplan.exists_chunk (henc.chunkCount_toNat hwrap)
        (show m.fileSize.toNat-1 < m.fileSize.toNat by omega)
      have hthere := hall i (by
        rw [hdone, mem_requestedChunks, and_iff_right hi]
        exact (em _).symm)
      omega

/-- A run cut behind a chunk of another plan for the name, and then an uncut one of three bytes. -/
theorem byteCount_holds_second :
    ∃ b, (Prog.run Env.direct.exec (receiver (ascii "in") b) (boot (Prog.run Env.direct.exec
        (receiver (ascii "in") firstChunkOnly) (boot emptyDirectory)).2.files)).1.1.code = 0 ∧
      ∃ content, (Prog.run Env.direct.exec (receiver (ascii "in") b) (boot (Prog.run
        Env.direct.exec (receiver (ascii "in") firstChunkOnly) (boot emptyDirectory)).2.files)).2.files
          (ascii "in/received_a") = some content ∧ content.length = 3 := by
  have hc : Sendable (ascii "abc") := by decide
  have hlimit : (senderManifest (ascii "a") (ascii "abc")).chunkCount.toNat ≤ 1000000 := by decide
  have hfirst := (@ReceiverRuns.start (ascii "in")).run Env.direct Env.direct_reliable
    firstChunkOnly rfl
  rw [firstChunkOnly_received] at hfirst
  have hother : (resumed (Prog.run Env.direct.exec (receiver (ascii "in") firstChunkOnly)
      (boot emptyDirectory)).2.files (senderManifest (ascii "a") (ascii "abc"))
      (outputPathFor (ascii "in") (senderManifest (ascii "a") (ascii "abc")))).isNone = true := by
    decide +kernel
  generalize (Prog.run Env.direct.exec (receiver (ascii "in") firstChunkOnly)
    (boot emptyDirectory)).2.files = files at hfirst hother ⊢
  obtain ⟨a, b, hu⟩ := uncutRun_exists Env.direct_reliable (ascii "in") files (ascii "a") hc
    (by decide) (requestedChunks_le_limit hlimit)
  -- the sidecar of the first run is for another plan, so the second starts anew
  have htrust : Trusted files (senderManifest (ascii "a") (ascii "abc"))
      (outputPathFor (ascii "in") (senderManifest (ascii "a") (ascii "abc"))) (ascii "abc") := by
    intro cp c hres
    rw [Option.isNone_iff_eq_none.mp hother] at hres
    cases hres
  have hcode := (hu.completes hlimit htrust).1
  exact ⟨b, hcode, byteCount_holds hfirst Env.direct Env.direct_reliable b hu.openReceiver
    (senderManifest (ascii "a") (ascii "abc")) hu.received (by rw [FileManifest.Wraps]; decide)
    (by decide) hcode⟩

def emptyPacket (m : FileManifest) : HashPacket :=
  { sessionId := m.sessionId, sha256Hex := sha256File [] }

theorem emptyPacket_sha256Hex (m : FileManifest) : (emptyPacket m).sha256Hex = sha256File [] := by
  rw [emptyPacket]

theorem emptyPacket_parsed (m : FileManifest) :
    (parseHashPacket (serializeHashPacket (emptyPacket m) ++ [])).1 = some (emptyPacket m) := by
  have hhex : isSha256Hex (emptyPacket m).sha256Hex = true := by
    rw [emptyPacket_sha256Hex]
    exact isSha256Hex_sha256File []
  rw [parseHashPacket_append _ hhex]

def noChunks (m : FileManifest) : TcpSocket :=
  { incoming := serializeFileManifest m ++ serializeHashPacket (emptyPacket m) }

theorem noChunks_received (m : FileManifest) (hm : m.Encodable) :
    ∃ k, receiveFileManifest (noChunks m) =
      (some m.withoutDigest, (noChunks m).skip (serializeFileManifest m).length k) :=
  receive_serializeFileManifest m hm (noChunks m) rfl _ rfl

/-- A manifest without chunks, received into an empty directory: the run reports success and leaves
an empty output. -/
theorem run_noChunks (dir : Bytes) (m : FileManifest) (hm : m.Encodable)
    (hcount : m.chunkCount = 0) :
    (Prog.run Env.direct.exec (receiver dir (noChunks m)) (boot emptyDirectory)).1.1.code = 0 ∧
      (Prog.run Env.direct.exec (receiver dir (noChunks m)) (boot emptyDirectory)).2.files
        (outputPathFor dir m) = some [] := by
  obtain ⟨hend, -⟩ := run_receiver_manifest dir hm (Env.direct_reliable.saveLaw _) emptyDirectory
    (noChunks m) rfl rfl (serializeHashPacket (emptyPacket m) ++ []) (by
      rw [noChunks, List.append_nil])
  have hrequest : requestedChunks emptyDirectory m.withoutDigest
      (outputPathFor dir m.withoutDigest) = [] := by
    apply List.eq_nil_of_length_eq_zero
    apply Nat.le_zero.mp
    apply (length_missingChunks_le _).trans
    change m.chunkCount.toNat ≤ 0
    rw [hcount]
    exact le_rfl
  have hexit := hend.exit_eq
  have hout := hend.output
  have haccept (bs : Bytes) : acceptChunks m.withoutDigest [] bs = ⟨[], none, bs⟩ := rfl
  have hstart : startingOutput emptyDirectory m.withoutDigest
      (outputPathFor dir m.withoutDigest) = [] := rfl
  rw [hrequest, haccept, hstart] at hexit hout
  rw [Option.getD_none, storeChunks, List.foldl_nil] at hexit
  refine ⟨?_, hout⟩
  rw [hexit, verdict_of_announced m.withoutDigest _ _ _ _ (emptyPacket_parsed m) rfl
    (emptyPacket_sha256Hex m)]
  rfl

theorem wrappingManifest_encodable : wrappingManifest.Encodable :=
  ⟨rfl, by decide, by decide, by decide, by decide⟩

/-- The manifest of `2^64-1` bytes in no chunks: success is reported over an empty output. -/
theorem byteCount_wraps :
    ReceiverRuns (ascii "in") [] emptyDirectory ∧
      (receiveFileManifest (noChunks wrappingManifest)).1 = some wrappingManifest ∧
      (Prog.run Env.direct.exec (receiver (ascii "in") (noChunks wrappingManifest))
        (boot emptyDirectory)).1.1.code = 0 ∧
      (Prog.run Env.direct.exec (receiver (ascii "in") (noChunks wrappingManifest))
        (boot emptyDirectory)).2.files (outputPathFor (ascii "in") wrappingManifest) = some [] ∧
      wrappingManifest.fileSize.toNat = 18446744073709551615 := by
  obtain ⟨hcode, hfiles⟩ := run_noChunks (ascii "in") wrappingManifest wrappingManifest_encodable rfl
  obtain ⟨k, hk⟩ := noChunks_received wrappingManifest wrappingManifest_encodable
  refine ⟨.start, ?_, hcode, hfiles, rfl⟩
  rw [hk]
  rfl

end PacketBridge
