import PacketBridge.ByteCount
import PacketBridge.CheckpointOrder

namespace PacketBridge
open Foundations

def chunkShape (m : FileManifest) (i : UInt64) : ℕ × ℕ := (m.chunkOffset i, m.chunkLength i)

def writeShape (x : ℕ × Bytes) : ℕ × ℕ := (x.1, x.2.length)

/-- The chunks that a transfer set out to take, after one more run. A run that truncates the output
begins a new transfer. -/
def plannedAfter (files : Files) (m : FileManifest) (out : Bytes) (plan : List UInt64) (w : World) :
    List UInt64 :=
  if .openTrunc out ∈ w.history then requestedChunks files m out else plan

/-- The files that runs on the manifest `m` can come to, from any directory and over any connections
where the file operations succeed, with the writes to the output and the plan of the transfer under
way. -/
inductive Deliveries (dir : Bytes) (m : FileManifest) :
    Files → List (ℕ × Bytes) → List UInt64 → Prop where
  | start (files : Files) :
    Deliveries dir m files [] (requestedChunks files m (outputPathFor dir m))
  | run {files : Files} {written : List (ℕ × Bytes)} {plan : List UInt64}
    (before : Deliveries dir m files written plan) (env : Env) (hr : env.Reliable) (s : TcpSocket)
    (ho : s.isOpen = true) (hm : (receiveFileManifest s).1 = some m) :
    Deliveries dir m (Prog.run env.exec (receiver dir s) (boot files)).2.files
      (writtenAfter (outputPathFor dir m) written
        (Prog.run env.exec (receiver dir s) (boot files)).2)
      (plannedAfter files m (outputPathFor dir m) plan
        (Prog.run env.exec (receiver dir s) (boot files)).2)

/-- The chunks written are the first of the plan, and a session that resumes asks for the others. -/
structure OnPlan (m : FileManifest) (out : Bytes) (files : Files) (written : List (ℕ × Bytes))
    (plan : List UInt64) : Prop where
  ascending : plan.Pairwise (· < ·)
  front : ∃ taken, taken <+: plan ∧ written.map writeShape = taken.map (chunkShape m) ∧
    ∀ cp, resumed files m out = some cp → taken ++ missingChunks cp = plan

variable {m : FileManifest} {out : Bytes} {files : Files} {written : List (ℕ × Bytes)}
  {plan : List UInt64}

/-- Taking chunks from the front of the missing ones leaves the others missing. -/
theorem append_missingChunks_withChunks {cp : TransferCheckpoint} {taken : List UInt64}
    (ht : taken <+: missingChunks cp) :
    taken ++ missingChunks (cp.withChunks taken) = missingChunks cp := by
  obtain ⟨rest, hrest⟩ := ht
  have hasc := missingChunks_ascending cp
  rw [← hrest, List.pairwise_append] at hasc
  have hsame : missingChunks (cp.withChunks taken) = rest := by
    apply (missingChunks_ascending _).eq_of_mem_iff hasc.2.1
    intro i
    have hmem := mem_missingChunks cp i
    rw [← hrest, List.mem_append] at hmem
    have hapart : i ∈ taken → i ∉ rest := by
      intro hi hi'
      exact absurd (hasc.2.2 i hi i hi') (lt_irrefl i)
    rw [mem_missingChunks, mem_withChunks]
    change i < cp.totalChunks ∧ _ ↔ _
    tauto
  rw [hsame, hrest]

theorem shape_of_chunks (hm : m.Planned) (idxs : List UInt64) (bs : Bytes) :
    ((acceptChunks m idxs bs).chunks.map fun x => (m.chunkOffset x.1, x.2)).map writeShape =
      ((acceptChunks m idxs bs).chunks.map Prod.fst).map (chunkShape m) := by
  rw [List.map_map, List.map_map]
  apply List.map_congr_left
  intro x hx
  rw [Function.comp_apply, Function.comp_apply, writeShape, chunkShape,
    (acceptChunks_planned hm idxs bs x hx).2]

/-- A session starts in the middle of the plan, where the last one stopped, or begins a new plan. -/
theorem OnPlan.begin (h : OnPlan m out files written plan) (w : World)
    (htrunc : .openTrunc out ∈ w.history ↔ resumed files m out = none) :
    ∃ before, (if .openTrunc out ∈ w.history then ([] : List (ℕ × Bytes)) else written).map
        writeShape = before.map (chunkShape m) ∧
      before ++ requestedChunks files m out = plannedAfter files m out plan w ∧
      (plannedAfter files m out plan w).Pairwise (· < ·) := by
  rw [plannedAfter]
  cases hres : resumed files m out with
  | none =>
    rw [if_pos (htrunc.mpr hres), if_pos (htrunc.mpr hres)]
    exact ⟨[], rfl, rfl, requestedChunks_ascending files m out⟩
  | some cp =>
    have hkept : .openTrunc out ∉ w.history := by
      rw [htrunc, hres]
      exact Option.some_ne_none cp
    obtain ⟨taken, -, hshape, hleft⟩ := h.front
    rw [if_neg hkept, if_neg hkept, requestedChunks, startingCheckpoint, hres, Option.getD_some]
    exact ⟨taken, hshape, hleft cp hres, h.ascending⟩

theorem writtenAfter_eq (out : Bytes) (written : List (ℕ × Bytes)) (w : World) :
    writtenAfter out written w =
      (if .openTrunc out ∈ w.history then [] else written) ++ w.writesTo out := by
  rw [writtenAfter]
  split <;> rfl

/-- A session, however its connection ends, keeps to the plan; with a success the plan is done. -/
theorem OnPlan.session (hm : m.Planned) (h : OnPlan m out files written plan) {bs : Bytes}
    {exit : ReceiverExit} {w : World}
    (hend : SessionEnd (fun cp text => text = checkpointText cp) files m out bs exit w) :
    OnPlan m out w.files (writtenAfter out written w) (plannedAfter files m out plan w) ∧
      (exit.code = 0 → (writtenAfter out written w).map writeShape =
        (plannedAfter files m out plan w).map (chunkShape m)) := by
  obtain ⟨before, hbefore, hplan, hasc⟩ := h.begin w hend.truncated
  obtain ⟨later, hlater⟩ := acceptChunks_prefix m (requestedChunks files m out) bs
  have hshape : (writtenAfter out written w).map writeShape =
      (before ++ (acceptChunks m (requestedChunks files m out) bs).chunks.map Prod.fst).map
        (chunkShape m) := by
    rw [writtenAfter_eq, List.map_append, List.map_append, hbefore, hend.writes,
      shape_of_chunks hm]
  refine ⟨⟨hasc, _, ?_, hshape, ?_⟩, ?_⟩
  · exact ⟨later, by rw [List.append_assoc, hlater, hplan]⟩
  · intro cp hres
    obtain ⟨-, ⟨text, htext, hparse⟩, -⟩ := resumed_eq_some.mp hres
    by_cases hcode : exit.code = 0
    · rw [hend.removed hcode] at htext
      cases htext
    · obtain ⟨text', htext', rfl⟩ := hend.checkpoint hcode
      obtain rfl := Option.some.inj (htext.symm.trans htext')
      -- the checkpoint that is read lists what was there and what was taken
      have hmissing : missingChunks cp = missingChunks ((startingCheckpoint files m out).withChunks
          ((acceptChunks m (requestedChunks files m out) bs).chunks.map Prod.fst)) := by
        rw [fields_of_parseCheckpoint _ _ hparse]
        rfl
      rw [hmissing, List.append_assoc, append_missingChunks_withChunks ⟨later, hlater⟩,
        ← requestedChunks, hplan]
  · intro hcode
    obtain ⟨hdone, -⟩ := acceptChunks_done hend.exit_eq hcode
    rw [hshape, hdone, hplan]

theorem OnPlan.run {dir : Bytes} (hm : m.Planned)
    (h : OnPlan m (outputPathFor dir m) files written plan) {env : Env} (hr : env.Reliable)
    (s : TcpSocket) (ho : s.isOpen = true) (hreceived : (receiveFileManifest s).1 = some m) :
    let run := Prog.run env.exec (receiver dir s) (boot files)
    OnPlan m (outputPathFor dir m) run.2.files (writtenAfter (outputPathFor dir m) written run.2)
        (plannedAfter files m (outputPathFor dir m) plan run.2) ∧
      (run.1.1.code = 0 → (writtenAfter (outputPathFor dir m) written run.2).map writeShape =
        (plannedAfter files m (outputPathFor dir m) plan run.2).map (chunkShape m)) := by
  intro run
  obtain ⟨-, hopen, hreceiver⟩ := receiver_of_received dir s ho m hreceived
  obtain ⟨exit, s', w, n, hrun, -, hend⟩ := run_receiverSession hm dir (hr.saveLaw _) files
    (receiveFileManifest s).2 hopen
  have hw : run = ((exit, s'), w) := by rw [← hrun, ← hreceiver]
  rw [hw]
  rcases hend with ⟨rfl, hfiles, hwrites, -, hkept⟩ | ⟨hend, -⟩
  · -- nothing has been written, and the files are as before
    have hsame : writtenAfter (outputPathFor dir m) written w = written := by
      rw [writtenAfter, if_neg hkept, World.writesTo, hwrites, List.filter_nil, List.map_nil,
        List.append_nil]
    rw [hsame, plannedAfter, if_neg hkept]
    simp only [hfiles]
    exact ⟨h, fun hcode => absurd hcode one_ne_zero⟩
  · exact h.session hm hend

theorem Deliveries.onPlan {dir : Bytes} (hm : m.Planned)
    (h : Deliveries dir m files written plan) :
    OnPlan m (outputPathFor dir m) files written plan := by
  induction h with
  | start files =>
    refine ⟨requestedChunks_ascending _ _ _, [], List.nil_prefix, rfl, ?_⟩
    intro cp hres
    rw [requestedChunks, startingCheckpoint, hres]
    rfl
  | run before env hr s ho hreceived ih => exact (ih.run hm hr s ho hreceived).1

/-- However often a transfer is interrupted, and whatever its senders send, its sessions write each
chunk of the plan at most once, in ascending order and without a gap; the session that resumes asks
for just the chunks that are left; and a success means that each has been written once. -/
theorem delivered_once (dir : Bytes) (m : FileManifest)
    (hm : ∃ frame, deserializeFileManifest frame = .ok m) (files : Files)
    (written : List (ℕ × Bytes)) (plan : List UInt64) (h : Deliveries dir m files written plan) :
    OnPlan m (outputPathFor dir m) files written plan ∧
    ∀ (env : Env) (s : TcpSocket), env.Reliable → s.isOpen = true →
      (receiveFileManifest s).1 = some m →
      let run := Prog.run env.exec (receiver dir s) (boot files)
      run.1.1.code = 0 → (writtenAfter (outputPathFor dir m) written run.2).map writeShape =
        (plannedAfter files m (outputPathFor dir m) plan run.2).map (chunkShape m) := by
  obtain ⟨frame, hframe⟩ := hm
  have hplan := (encodable_of_accepted frame m hframe).1.planned
  refine ⟨h.onPlan hplan, ?_⟩
  intro env s hr ho hreceived
  exact ((h.onPlan hplan).run hplan hr s ho hreceived).2

/-- A session that brings a chunk, and one that ends behind the manifest. -/
theorem delivered_once_small :
    ∃ files written plan, Deliveries (ascii "in") smallManifest files written plan ∧
      OnPlan smallManifest (outputPathFor (ascii "in") smallManifest) files written plan := by
  have hruns := ((@Deliveries.start (ascii "in") smallManifest emptyDirectory).run
    Env.direct Env.direct_reliable firstChunkOnly rfl firstChunkOnly_received).run
    Env.direct Env.direct_reliable manifestOnly rfl manifestOnly_received
  exact ⟨_, _, _, hruns, (delivered_once (ascii "in") smallManifest
    ⟨_, deserialize_serializeFileManifest smallManifest smallManifest_encodable⟩ _ _ _ hruns).1⟩

end PacketBridge
