import PacketBridge.HonestRuns
import PacketBridge.TornRuns

/-! A transfer over many runs: cut runs may go before, and the run that is not cut completes it; but
what has failed the hash comparison once fails it again. -/
namespace PacketBridge
open Foundations

theorem one_byte_hashes_differ : sha256File [2] ≠ sha256File [1] := by decide +kernel

attribute [local irreducible] sha256File

/-- The files that cut runs can leave, each against an honest sender of the file or of another one
with the same name and a different size. -/
inductive CutRuns (dir filePath content : Bytes) (files : Files) : Files → Prop where
  | start : CutRuns dir filePath content files files
  | run {files' : Files} (before : CutRuns dir filePath content files files') (env : Env)
    (otherPath other : Bytes)
    (hname : (senderManifest otherPath other).filename = (senderManifest filePath content).filename)
    (hother : other = content ∨ other.length ≠ content.length) (a b : TcpSocket)
    (hl : LinkedRun env dir files' otherPath other a b) :
    CutRuns dir filePath content files (Prog.run env.exec (receiver dir b) (boot files')).2.files

/-- A file below `2^63` bytes has as many chunks as its size makes. -/
theorem chunkCount_senderManifest (filePath : Bytes) {content : Bytes} (hc : Sendable content)
    (hn : (senderManifest filePath content).filename.length ≤ kMaxFilenameLength) :
    (senderManifest filePath content).chunkCount.toNat =
      (senderManifest filePath content).fileSize.toNat ⌈/⌉
        (senderManifest filePath content).chunkSize.toNat := by
  apply (senderManifest_encodable filePath content hn).chunkCount_toNat
  have hsize : (senderManifest filePath content).fileSize.toNat = content.length :=
    hc.fileSize_toNat
  have hchunk : (senderManifest filePath content).chunkSize.toNat = 65536 := rfl
  unfold Sendable at hc
  rw [FileManifest.Wraps, hsize, hchunk]
  omega

theorem outputPathFor_of_filename (dir : Bytes) {m m' : FileManifest}
    (h : m.filename = m'.filename) : outputPathFor dir m = outputPathFor dir m' := by
  rw [outputPathFor, outputPathFor, h]

/-- A session asks for no more chunks than the file has. -/
theorem requestedChunks_le_limit {files : Files} {m : FileManifest} {out : Bytes}
    (hlimit : m.chunkCount.toNat ≤ 1000000) :
    (requestedChunks files m out).length ≤ 1000000 := by
  have hcount := ((checkpointMatchesManifest_iff _ _).mp
    (startingCheckpoint_matches files m out)).2.2.2.1
  apply (length_missingChunks_le _).trans
  rw [hcount]
  exact hlimit

/-- A run that is not cut ends with the file, when it can trust the checkpoint it finds. -/
theorem UncutRun.completes {env : Env} {dir filePath content : Bytes} {files : Files}
    {a b : TcpSocket} (hu : UncutRun env dir files filePath content a b)
    (hlimit : (senderManifest filePath content).chunkCount.toNat ≤ 1000000)
    (htrust : Trusted files (senderManifest filePath content)
      (outputPathFor dir (senderManifest filePath content)) content) :
    (Prog.run env.exec (receiver dir b) (boot files)).1.1.code = 0 ∧
      (Prog.run env.exec (receiver dir b) (boot files)).2.files
        (outputPathFor dir (senderManifest filePath content)) = some content ∧
      (Prog.run env.exec (receiver dir b) (boot files)).2.files (checkpointPathForOutput
        (outputPathFor dir (senderManifest filePath content))) = none := by
  have henc := senderManifest_encodable filePath content hu.nameShort
  have hend := hu.session
  rw [answerStream, if_pos (requestedChunks_le_limit hlimit)] at hend
  exact htrust.completes henc.planned
    (chunkCount_senderManifest filePath hu.sendable hu.nameShort) hu.sendable
    hu.sendable.fileSize_toNat hend

theorem CutRuns.trusted {dir filePath content : Bytes} {files files' : Files}
    (hc : Sendable content)
    (hstart : files (checkpointPathForOutput
      (outputPathFor dir (senderManifest filePath content))) = none)
    (h : CutRuns dir filePath content files files') :
    Trusted files' (senderManifest filePath content)
      (outputPathFor dir (senderManifest filePath content)) content := by
  induction h with
  | start => exact Trusted.of_none hstart
  | @run files' before env otherPath other hname hother a b hl ih =>
    have hpath := outputPathFor_of_filename dir hname
    have henc := senderManifest_encodable otherPath other hl.nameShort
    have hsize : (senderManifest otherPath other).fileSize.toNat = other.length :=
      hl.sendable.fileSize_toNat
    -- the run changed nothing, or it stored chunks of the file it was for
    rcases hl.cases with hsame | ⟨idxs, bs, exit, hbs, hend⟩
    · rw [hsame]
      exact ih
    · rw [hpath] at hend
      rcases hother with rfl | hne
      · -- the same file: its manifest is the same, whatever the directory it was sent from
        have hmanifest : senderManifest otherPath other = senderManifest filePath other := by
          have hbase : sanitizeFilename (basenameFromPath otherPath) =
              sanitizeFilename (basenameFromPath filePath) := hname
          rw [senderManifest, senderManifest, manifestFor, manifestFor, hbase]
        rw [hmanifest] at hend henc hsize hbs
        exact ih.session henc.planned hsize hend
          (acceptChunks_honest henc.planned hsize idxs _ bs hbs)
      · apply Trusted.other_size hend
        intro heq
        apply hne
        rw [← hsize, heq]
        exact hc.fileSize_toNat

/-- Whatever the output held before, and whatever cut runs went before, a run that is not cut
completes the transfer: the receiver reports success, the output is the file, and the checkpoint
is gone. -/
theorem transfer_resumes (dir filePath content : Bytes)
    (hlimit : (senderManifest filePath content).chunkCount.toNat ≤ 1000000) (files : Files)
    (hstart : files (checkpointPathForOutput
      (outputPathFor dir (senderManifest filePath content))) = none) (files' : Files)
    (h : CutRuns dir filePath content files files') (env : Env) (a b : TcpSocket)
    (hu : UncutRun env dir files' filePath content a b) :
    (Prog.run env.exec (receiver dir b) (boot files')).1.1.code = 0 ∧
      (Prog.run env.exec (receiver dir b) (boot files')).2.files
        (outputPathFor dir (senderManifest filePath content)) = some content ∧
      (Prog.run env.exec (receiver dir b) (boot files')).2.files (checkpointPathForOutput
        (outputPathFor dir (senderManifest filePath content))) = none :=
  hu.completes hlimit (h.trusted hu.sendable hstart)

/-- A run cut behind the chunk, and then one that is not cut. -/
theorem transfer_resumes_abc :
    ∃ a₀ b₀ a b files, LinkedRun Env.direct (ascii "in") emptyDirectory (ascii "dir/a.txt")
        (ascii "abc") a₀ b₀ ∧
      files = (Prog.run Env.direct.exec (receiver (ascii "in") b₀) (boot emptyDirectory)).2.files ∧
      UncutRun Env.direct (ascii "in") files (ascii "dir/a.txt") (ascii "abc") a b ∧
      (Prog.run Env.direct.exec (receiver (ascii "in") b) (boot files)).1.1.code = 0 ∧
      (Prog.run Env.direct.exec (receiver (ascii "in") b) (boot files)).2.files
        (ascii "in/received_a.txt") = some (ascii "abc") := by
  have hc : Sendable (ascii "abc") := by decide
  have hlimit : (senderManifest (ascii "dir/a.txt") (ascii "abc")).chunkCount.toNat ≤ 1000000 := by
    decide
  obtain ⟨a₀, b₀, hl, -, -⟩ := linked_exists Env.direct_reliable (ascii "in") emptyDirectory
    (ascii "dir/a.txt") hc (by decide) (requestedChunks_le_limit hlimit) 35
  have hcut := CutRuns.start.run Env.direct (ascii "dir/a.txt") (ascii "abc") rfl (Or.inl rfl) a₀ b₀
    hl
  generalize hfiles : (Prog.run Env.direct.exec (receiver (ascii "in") b₀)
    (boot emptyDirectory)).2.files = files at hcut
  obtain ⟨a, b, hu⟩ := uncutRun_exists Env.direct_reliable (ascii "in") files (ascii "dir/a.txt") hc
    (by decide) (requestedChunks_le_limit hlimit)
  obtain ⟨hcode, hout, -⟩ := transfer_resumes (ascii "in") (ascii "dir/a.txt") (ascii "abc") hlimit
    emptyDirectory rfl files hcut Env.direct a b hu
  exact ⟨a₀, b₀, a, b, files, hl, hfiles.symm, hu, hcode, hout⟩

/-- A checkpoint that lists every chunk, beside an output with another hash than the file. -/
structure Stuck (files : Files) (m : FileManifest) (out content : Bytes) : Prop where
  checkpoint : ∃ cp, resumed files m out = some cp ∧ missingChunks cp = []
  output : ∃ c, files out = some c ∧ sha256File c ≠ sha256File content

/-- The exit on the announced hash of the file: success or an integrity failure. -/
theorem verdict_of_contentHash (m : FileManifest) (out c content : Bytes) :
    verdict m out c (serializeHashPacket (contentHash m content)) =
      if sha256File c = sha256File content then
        .complete out (checkpointPathForOutput out) m.fileSize true
      else .integrityFailed := by
  rw [verdict, contentHash_parsed]
  exact if_neg (not_not.mpr rfl)

/-- A name with no line break comes back from the checkpoint. -/
theorem resumed_of_saved {files : Files} {m : FileManifest} {out c : Bytes}
    {cp : TransferCheckpoint} (hout : files out = some c)
    (hckpt : files (checkpointPathForOutput out) = some (checkpointText cp))
    (hmatch : checkpointMatchesManifest cp m = true) (hname : newline ∉ m.filename) :
    resumed files m out = some cp := by
  have hcp := ((checkpointMatchesManifest_iff cp m).mp hmatch).1
  rw [← hcp] at hname
  exact resumed_eq_some.mpr ⟨⟨c, hout⟩, ⟨_, hckpt, parseCheckpoint_of_no_newline cp hname⟩, hmatch⟩

theorem matches_withChunks (files : Files) (m : FileManifest) (out : Bytes) (is : List UInt64)
    (h : ∀ i ∈ is, i ∈ requestedChunks files m out) :
    checkpointMatchesManifest ((startingCheckpoint files m out).withChunks is) m = true := by
  have hstart := (checkpointMatchesManifest_iff _ m).mp (startingCheckpoint_matches files m out)
  rw [checkpointMatchesManifest_iff]
  refine ⟨hstart.1, hstart.2.1, hstart.2.2.1, hstart.2.2.2.1, ?_⟩
  intro i hi
  rcases (mem_withChunks _ _ i).mp hi with hin | hin
  · exact ((mem_requestedChunks files m out i).mp (h i hin)).1
  · exact hstart.2.2.2.2 i hin

/-- The files after a session that took every chunk it asked for: the checkpoint lists all. -/
theorem resumed_of_all {files : Files} {m : FileManifest} {out bs : Bytes}
    (hname : newline ∉ m.filename) {exit : ReceiverExit} {w : World}
    (hend : SessionEnd (fun cp text => text = checkpointText cp) files m out bs exit w)
    (hall : (acceptChunks m (requestedChunks files m out) bs).failed = none)
    (hcode : exit.code ≠ 0) : ∃ cp, resumed w.files m out = some cp ∧ missingChunks cp = [] := by
  obtain ⟨text, hf, rfl⟩ := hend.checkpoint hcode
  rw [(acceptChunks_failed_eq_none m _ bs).mp hall] at hf
  have hmatch := matches_withChunks files m out _ fun i hi => hi
  refine ⟨_, resumed_of_saved hend.output hf hmatch hname, ?_⟩
  rw [List.eq_nil_iff_forall_not_mem]
  intro i hi
  -- what was not completed before has been asked for and taken
  have hcount := ((checkpointMatchesManifest_iff _ _).mp hmatch).2.2.2.1
  rw [mem_missingChunks, mem_withChunks, mem_requestedChunks, hcount] at hi
  tauto

/-- The end of a session that got all it asked for, with a hash that does not match. -/
theorem stuck_of_integrityFailed {files : Files} {m : FileManifest} {out content : Bytes}
    (hm : m.Planned) (hc : Sendable content) (hsize : m.fileSize.toNat = content.length)
    (hname : newline ∉ m.filename) {exit : ReceiverExit} {w : World}
    (hend : SessionEnd (fun cp text => text = checkpointText cp) files m out
      (transferStream m content (requestedChunks files m out)) exit w)
    (hexit : exit = .integrityFailed) : Stuck w.files m out content := by
  have hwhole := acceptChunks_chunkStream hm hc hsize (requestedChunks files m out)
    (requestedChunks_lt files m out) (serializeHashPacket (contentHash m content))
  rw [← transferStream] at hwhole
  have hverdict := hend.exit_eq
  rw [hwhole, Option.getD_none, verdict_of_contentHash, hexit] at hverdict
  refine ⟨resumed_of_all hname hend (by rw [hwhole]) (by rw [hexit]; exact one_ne_zero), _,
    hend.output, ?_⟩
  rw [hwhole]
  intro heq
  rw [if_pos heq] at hverdict
  cases hverdict

/-- From such a state the next session asks for nothing and fails in the same way. -/
theorem Stuck.session {files : Files} {m : FileManifest} {out content : Bytes}
    (h : Stuck files m out content) {exit : ReceiverExit} {w : World}
    (hend : SessionEnd (fun cp text => text = checkpointText cp) files m out
      (answerStream files m out content) exit w) :
    exit = .integrityFailed ∧ w.files out = files out := by
  obtain ⟨cp, hres, hmissing⟩ := h.checkpoint
  obtain ⟨c, hc, hne⟩ := h.output
  have hrequest : requestedChunks files m out = [] := by
    rw [requestedChunks, startingCheckpoint, hres]
    exact hmissing
  have hbase : startingOutput files m out = c := by
    rw [startingOutput, hres, hc]
    rfl
  have hstream : answerStream files m out content =
      serializeHashPacket (contentHash m content) := by
    rw [answerStream, hrequest, List.length_nil, if_pos (Nat.zero_le _), transferStream_nil]
  have haccept : acceptChunks m [] (serializeHashPacket (contentHash m content)) =
      ⟨[], none, serializeHashPacket (contentHash m content)⟩ := by rw [acceptChunks]
  have hout := hend.output
  have hverdict := hend.exit_eq
  rw [hstream, hrequest, haccept, hbase, storeChunks, List.foldl_nil] at hout hverdict
  rw [Option.getD_none, verdict_of_contentHash, if_neg hne] at hverdict
  exact ⟨hverdict, by rw [hout, hc]⟩

theorem newline_not_mem_senderManifest (filePath content : Bytes) :
    newline ∉ (senderManifest filePath content).filename :=
  not_mem_sanitizeFilename _ _ (by decide)

theorem UncutRun.stuck {env : Env} {dir : Bytes} {files : Files} {filePath content : Bytes}
    {a b : TcpSocket} (h : UncutRun env dir files filePath content a b)
    (hexit : (Prog.run env.exec (receiver dir b) (boot files)).1.1 = .integrityFailed) :
    Stuck (Prog.run env.exec (receiver dir b) (boot files)).2.files
      (senderManifest filePath content) (outputPathFor dir (senderManifest filePath content))
      content := by
  have henc := senderManifest_encodable filePath content h.nameShort
  have hend := h.session
  unfold answerStream at hend
  by_cases hlimit : (requestedChunks files (senderManifest filePath content)
      (outputPathFor dir (senderManifest filePath content))).length ≤ 1000000
  · rw [if_pos hlimit] at hend
    exact stuck_of_integrityFailed henc.planned h.sendable h.sendable.fileSize_toNat
      (newline_not_mem_senderManifest filePath content) hend hexit
  · -- a request over the limit is not answered, and the run ends at the first header
    rw [if_neg hlimit] at hend
    have hverdict := hend.exit_eq
    rw [hexit] at hverdict
    cases hreq : requestedChunks files (senderManifest filePath content)
        (outputPathFor dir (senderManifest filePath content)) with
    | nil =>
      rw [hreq] at hlimit
      exact absurd (Nat.zero_le _) hlimit
    | cons i is =>
      have hnone : (acceptChunks (senderManifest filePath content) (i :: is) []).failed =
          some .headerNotReceived := rfl
      rw [hreq, hnone] at hverdict
      cases hverdict

theorem Stuck.uncut_exists {files : Files} {dir filePath content : Bytes}
    (h : Stuck files (senderManifest filePath content)
      (outputPathFor dir (senderManifest filePath content)) content) (hc : Sendable content)
    (hn : (senderManifest filePath content).filename.length ≤ kMaxFilenameLength) :
    ∃ a b, UncutRun Env.direct dir files filePath content a b := by
  obtain ⟨cp, hres, hmissing⟩ := h.checkpoint
  have hrequest : requestedChunks files (senderManifest filePath content)
      (outputPathFor dir (senderManifest filePath content)) = [] := by
    rw [requestedChunks, startingCheckpoint, hres]
    exact hmissing
  exact uncutRun_exists Env.direct_reliable dir files filePath hc hn
    (by rw [hrequest]; exact Nat.zero_le _)

/-- A retry never mends an integrity failure. Whatever the directory held, after a run that was not
cut and failed the comparison there is a next run that is not cut, and each such run with an honest
sender of the same file fails the comparison again and leaves an output that is not the file. -/
theorem retry_fails (dir filePath content : Bytes) (files : Files) (env : Env) (a b : TcpSocket)
    (hu : UncutRun env dir files filePath content a b)
    (hexit : (Prog.run env.exec (receiver dir b) (boot files)).1.1 = .integrityFailed) :
    let files' := (Prog.run env.exec (receiver dir b) (boot files)).2.files
    (∃ env' a' b', UncutRun env' dir files' filePath content a' b') ∧
    ∀ env' a' b', UncutRun env' dir files' filePath content a' b' →
      (Prog.run env'.exec (receiver dir b') (boot files')).1.1 = .integrityFailed ∧
        (Prog.run env'.exec (receiver dir b') (boot files')).2.files
          (outputPathFor dir (senderManifest filePath content)) ≠ some content := by
  intro files'
  have hstuck := hu.stuck hexit
  refine ⟨⟨Env.direct, hstuck.uncut_exists hu.sendable hu.nameShort⟩, ?_⟩
  intro env' a' b' hu'
  obtain ⟨hfails, hsame⟩ := hstuck.session hu'.session
  refine ⟨hfails, ?_⟩
  rw [hsame]
  obtain ⟨c, hc, hne⟩ := hstuck.output
  intro heq
  rw [hc, Option.some.injEq] at heq
  exact hne (by rw [heq])

/-- The files that runs against honest senders can leave in an empty directory. -/
inductive SenderRuns (dir : Bytes) : Files → Prop where
  | start : SenderRuns dir emptyDirectory
  | run {files : Files} (before : SenderRuns dir files) (env : Env) (filePath content : Bytes)
    (a b : TcpSocket) (hl : LinkedRun env dir files filePath content a b) :
    SenderRuns dir (Prog.run env.exec (receiver dir b) (boot files)).2.files

/-- A run for another file with the same manifest, cut behind the last chunk, leaves the checkpoint
of the file over the bytes of the other. -/
theorem other_leaves_stuck (dir filePath : Bytes) {other content : Bytes} (hc : Sendable other)
    (hn : (senderManifest filePath other).filename.length ≤ kMaxFilenameLength)
    (hmanifest : senderManifest filePath other = senderManifest filePath content)
    (hlimit : (senderManifest filePath other).chunkCount.toNat ≤ 1000000)
    (hne : sha256File other ≠ sha256File content) :
    ∃ files, SenderRuns dir files ∧ Stuck files (senderManifest filePath content)
      (outputPathFor dir (senderManifest filePath content)) content := by
  have henc := senderManifest_encodable filePath other hn
  have hsize : (senderManifest filePath other).fileSize.toNat = other.length := hc.fileSize_toNat
  have hcount := chunkCount_senderManifest filePath hc hn
  have hrequest : (requestedChunks emptyDirectory (senderManifest filePath other)
      (outputPathFor dir (senderManifest filePath other))).length ≤ 1000000 :=
    (length_missingChunks_le _).trans hlimit
  obtain ⟨a, b, hl, hend, -⟩ := linked_exists Env.direct_reliable dir emptyDirectory filePath hc hn
    hrequest (chunkStream (senderManifest filePath other) other (requestedChunks emptyDirectory
      (senderManifest filePath other) (outputPathFor dir (senderManifest filePath other)))).length
  refine ⟨_, .run .start Env.direct filePath other a b hl, ?_⟩
  rw [← hmanifest]
  have hname := newline_not_mem_senderManifest filePath other
  generalize senderManifest filePath other = m at henc hsize hcount hname hend ⊢
  generalize outputPathFor dir m = out at hend ⊢
  have htrust : Trusted emptyDirectory m out other := Trusted.of_none rfl
  rw [transferStream, List.take_left] at hend
  have hwhole := acceptChunks_chunkStream henc.planned hc hsize
    (requestedChunks emptyDirectory m out) (requestedChunks_lt emptyDirectory m out) []
  rw [List.append_nil] at hwhole
  have hout := hend.output
  have hverdict := hend.exit_eq
  rw [hwhole, htrust.storeAll henc.planned hcount hc hsize] at hout hverdict
  have hexit : (Prog.run Env.direct.exec (receiver dir b) (boot emptyDirectory)).1.1 =
      .hashNotReceived := hverdict
  refine ⟨resumed_of_all hname hend (by rw [hwhole]) (by rw [hexit]; exact one_ne_zero), other,
    hout, hne⟩

theorem sendable_byte (x : UInt8) : Sendable [x] := by
  unfold Sendable
  rw [List.length_singleton]
  decide

/-- Two files of one byte under one name: once the chunk of the one is recorded, a run for the other
that is not cut fails. -/
theorem other_fails :
    ∃ files a b, SenderRuns (ascii "in") files ∧
      UncutRun Env.direct (ascii "in") files (ascii "a") [1] a b ∧
      (Prog.run Env.direct.exec (receiver (ascii "in") b) (boot files)).1.1 = .integrityFailed := by
  have hmanifest : senderManifest (ascii "a") [2] = senderManifest (ascii "a") [1] := rfl
  obtain ⟨files, hruns, hstuck⟩ := other_leaves_stuck (ascii "in") (ascii "a") (sendable_byte 2)
    (by decide) hmanifest (by decide) one_byte_hashes_differ
  obtain ⟨a, b, hu⟩ := hstuck.uncut_exists (sendable_byte 1) (by decide)
  exact ⟨files, a, b, hruns, hu, (hstuck.session hu.session).1⟩

theorem retry_fails_byte :
    ∃ files a b, UncutRun Env.direct (ascii "in") files (ascii "a") [1] a b ∧
      ∃ env' a' b', UncutRun env' (ascii "in")
        (Prog.run Env.direct.exec (receiver (ascii "in") b) (boot files)).2.files (ascii "a") [1]
        a' b' ∧
      (Prog.run env'.exec (receiver (ascii "in") b') (boot
        (Prog.run Env.direct.exec (receiver (ascii "in") b) (boot files)).2.files)).1.1 =
          .integrityFailed := by
  obtain ⟨files, a, b, -, hu, hexit⟩ := other_fails
  obtain ⟨⟨env', a', b', hu'⟩, hfails⟩ := retry_fails (ascii "in") (ascii "a") [1] files Env.direct
    a b hu hexit
  exact ⟨files, a, b, hu, env', a', b', hu', (hfails env' a' b' hu').1⟩

/-- Its retry fails too. -/
theorem retry_of_other_fails :
    ∃ files a b a' b', SenderRuns (ascii "in") files ∧
      UncutRun Env.direct (ascii "in") files (ascii "a") [1] a b ∧
      (Prog.run Env.direct.exec (receiver (ascii "in") b) (boot files)).1.1 = .integrityFailed ∧
      UncutRun Env.direct (ascii "in")
        (Prog.run Env.direct.exec (receiver (ascii "in") b) (boot files)).2.files
        (ascii "a") [1] a' b' ∧
      (Prog.run Env.direct.exec (receiver (ascii "in") b') (boot
        (Prog.run Env.direct.exec (receiver (ascii "in") b) (boot files)).2.files)).1.1 =
          .integrityFailed := by
  obtain ⟨files, a, b, hruns, hu, hexit⟩ := other_fails
  have hstuck := hu.stuck hexit
  obtain ⟨a', b', hu'⟩ := hstuck.uncut_exists (sendable_byte 1) (by decide)
  exact ⟨files, a, b, a', b', hruns, hu, hexit, hu', (hstuck.session hu'.session).1⟩

end PacketBridge
