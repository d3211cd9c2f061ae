import PacketBridge.Checkpoint

namespace PacketBridge
open Foundations

theorem temporaryPath_ne (path : Bytes) : temporaryPath path ≠ path := by
  intro h
  have hl := congrArg List.length h
  rw [temporaryPath, List.length_append] at hl
  exact absurd hl (by rw [show (ascii ".tmp").length = 4 by decide]; omega)

theorem checkpointPath_ne (outputPath : Bytes) : checkpointPathForOutput outputPath ≠ outputPath := by
  intro h
  have hl := congrArg List.length h
  rw [checkpointPathForOutput, List.length_append] at hl
  exact absurd hl (by rw [show (ascii ".pbcheckpoint").length = 13 by decide]; omega)

theorem temporaryPath_checkpointPath_ne (outputPath : Bytes) :
    temporaryPath (checkpointPathForOutput outputPath) ≠ outputPath := by
  intro h
  have hl := congrArg List.length h
  rw [temporaryPath, checkpointPathForOutput, List.length_append, List.length_append] at hl
  exact absurd hl (by rw [show (ascii ".tmp").length = 4 by decide]; omega)

/-- A state on the way of saving: the checkpoint is the old one, missing or the new one, and only
it and the temporary file differ. -/
structure Saving (path : Bytes) (checkpoint : TransferCheckpoint) (w w' : World) : Prop where
  file : w'.files path = w.files path ∨ w'.files path = none ∨
    w'.files path = some (checkpointText checkpoint)
  same : ∀ q, q ≠ path → q ≠ temporaryPath path → World.Same q w w'

theorem Saving.step {path : Bytes} {cp : TransferCheckpoint} {w t t' : World} {o : FileOp}
    (h : Saving path cp w t) (ho : ∀ q ∈ o.touches, q = path ∨ q = temporaryPath path)
    (hs : ∀ q, q ∉ o.touches → World.Same q t t')
    (hf : path ∈ o.touches → t'.files path = w.files path ∨ t'.files path = none ∨
      t'.files path = some (checkpointText cp)) : Saving path cp w t' := by
  refine ⟨?_, fun q hq hq' => (h.same q hq hq').trans (hs q fun hm => ?_)⟩
  · by_cases hm : path ∈ o.touches
    · exact hf hm
    · rw [(hs path hm).files]
      exact h.file
  · rcases ho q hm with rfl | rfl
    · exact hq rfl
    · exact hq' rfl

/-- The end of a save: it has put the new text in place, or left the old file or none. It fails
exactly when the temporary file cannot be opened or not be renamed. -/
structure SaveEnd (env : Env) (path : Bytes) (checkpoint : TransferCheckpoint) (w : World)
    (ok : Bool) (w' : World) : Prop where
  saving : Saving path checkpoint w w'
  ok_iff : ok = true ↔ env.fault w.history.length (.openTrunc (temporaryPath path)) = none ∧
    env.fault (w.history.length+4) (.rename (temporaryPath path) path) = none
  calls : ok = true → w'.history.length = w.history.length+5
  saved : ok = true → w'.files path = some (checkpointText checkpoint) ∧
    w'.files (temporaryPath path) = none
  notSaved : ok = false → w'.files path = w.files path ∨ w'.files path = none

section Saving

variable {env : Env} {path : Bytes} {cp : TransferCheckpoint} {w t : World}

theorem Saving.refl : Saving path cp w w := ⟨Or.inl rfl, fun _ _ _ => World.Same.refl⟩

/-- A call on the temporary file leaves what is at the path, whole or cut short. -/
theorem Saving.aside {o : FileOp} (ht : Saving path cp w t) (env : Env)
    (ho : o.touches = [temporaryPath path]) :
    Saving path cp w (env.exec o t).2 ∧ (∀ k, Saving path cp w (cutAfter k o t)) ∧
      (env.exec o t).2.files path = t.files path := by
  have hq : ∀ q ∈ o.touches, q = path ∨ q = temporaryPath path := by
    intro q hq
    rw [ho, List.mem_singleton] at hq
    exact Or.inr hq
  have hp : path ∉ o.touches := by
    rw [ho, List.mem_singleton]
    exact Ne.symm (temporaryPath_ne path)
  refine ⟨?_, ?_, (exec_same env o t path hp).files⟩
  · exact ht.step hq (exec_same env o t) fun h => absurd h hp
  · intro k
    exact ht.step hq (cutAfter_same k o t) fun h => absurd h hp

/-- The first call of a save: the temporary file is emptied. -/
theorem openTemporary_safe (env : Env) (path : Bytes) (cp : TransferCheckpoint) (w : World) :
    Prog.Safe env.exec cutAfter (Saving path cp w) (call (.openTrunc (temporaryPath path))) w
      fun ok t => Saving path cp w t ∧ t.files path = w.files path ∧
        t.history.length = w.history.length+1 ∧
        (ok = true ↔ env.fault w.history.length (.openTrunc (temporaryPath path)) = none) ∧
        (ok = true → t.files (temporaryPath path) = some [] ∧
          t.streams (temporaryPath path) = { good := true }) := by
  obtain ⟨hsaving, hcut, hold⟩ :=
    Saving.refl.aside (o := .openTrunc (temporaryPath path)) env rfl
  refine Prog.Safe.perform hcut hsaving ⟨hsaving, hold, length_exec_history env _ _, ?_⟩
  cases hf : env.fault w.history.length (.openTrunc (temporaryPath path)) with
  | none =>
    obtain ⟨hok, hnew⟩ := exec_openTrunc_new hf
    exact ⟨iff_of_true hok rfl, fun _ => hnew⟩
  | some k =>
    rw [exec_openTrunc_fault (by rw [hf]; exact Option.some_ne_none k)]
    exact ⟨iff_of_false Bool.false_ne_true (Option.some_ne_none k),
      fun h => absurd h Bool.false_ne_true⟩

/-- The second call: the text enters the stream of the temporary file. -/
theorem writeTemporary_safe (hs : env.Steady) (ht : Saving path cp w t)
    (hempty : t.files (temporaryPath path) = some [])
    (hstream : t.streams (temporaryPath path) = { good := true }) :
    Prog.Safe env.exec cutAfter (Saving path cp w)
      (call (.write (temporaryPath path) (checkpointText cp))) t
      fun _ t' => Saving path cp w t' ∧
        t'.view (temporaryPath path) = some (checkpointText cp) ∧
        t'.history.length = t.history.length+1 := by
  obtain ⟨hsaving, hcut, -⟩ :=
    ht.aside (o := .write (temporaryPath path) (checkpointText cp)) env rfl
  exact Prog.Safe.perform hcut hsaving ⟨hsaving, exec_write_view_new (hs _ _ rfl) hempty hstream,
    length_exec_history env _ _⟩

/-- The third call: closing the stream brings the text to the disk. -/
theorem closeTemporary_safe (hs : env.Steady) (ht : Saving path cp w t)
    (hview : t.view (temporaryPath path) = some (checkpointText cp)) :
    Prog.Safe env.exec cutAfter (Saving path cp w) (call (.close (temporaryPath path))) t
      fun _ t' => Saving path cp w t' ∧
        t'.files (temporaryPath path) = some (checkpointText cp) ∧
        t'.history.length = t.history.length+1 := by
  obtain ⟨hsaving, hcut, -⟩ := ht.aside (o := .close (temporaryPath path)) env rfl
  exact Prog.Safe.perform hcut hsaving ⟨hsaving, (exec_close_files (hs _ _ rfl)).trans hview,
    length_exec_history env _ _⟩

/-- The fourth call: the old checkpoint is removed. -/
theorem removeOld_safe (hs : env.Steady) (ht : Saving path cp w t)
    (hfile : t.files (temporaryPath path) = some (checkpointText cp)) :
    Prog.Safe env.exec cutAfter (Saving path cp w) (call (.remove path)) t
      fun _ t' => Saving path cp w t' ∧ t'.files path = none ∧
        t'.files (temporaryPath path) = some (checkpointText cp) ∧
        t'.history.length = t.history.length+1 := by
  obtain ⟨hnone, hothers⟩ := exec_remove_files (hs t.history.length (.remove path) rfl)
  have hsaving : Saving path cp w (env.exec (.remove path) t).2 :=
    ht.step (o := .remove path) (fun q hq => Or.inl (List.mem_singleton.mp hq))
      (exec_same env _ t) fun _ => Or.inr (Or.inl hnone)
  exact Prog.Safe.perform (fun _ => ht) hsaving ⟨hsaving, hnone,
    (hothers _ (temporaryPath_ne path)).trans hfile, length_exec_history env _ _⟩

/-- The last call: the temporary file takes the place of the checkpoint. -/
theorem renameTemporary_safe (ht : Saving path cp w t) (hnone : t.files path = none)
    (hfile : t.files (temporaryPath path) = some (checkpointText cp)) :
    Prog.Safe env.exec cutAfter (Saving path cp w) (call (.rename (temporaryPath path) path)) t
      fun ok t' => Saving path cp w t' ∧ t'.history.length = t.history.length+1 ∧
        (ok = true ↔ env.fault t.history.length (.rename (temporaryPath path) path) = none) ∧
        (ok = true → t'.files path = some (checkpointText cp) ∧
          t'.files (temporaryPath path) = none) ∧
        (ok = false → t'.files path = none) := by
  cases hf : env.fault t.history.length (.rename (temporaryPath path) path) with
  | some k =>
    have hexec := exec_rename_fault (w := t) (by rw [hf]; exact Option.some_ne_none k)
    have hsaving : Saving path cp w (t.log (.rename (temporaryPath path) path)) := by
      refine ⟨ht.file, fun q hq hq' => ?_⟩
      exact ⟨(ht.same q hq hq').files, (ht.same q hq hq').streams, (ht.same q hq hq').writesTo⟩
    refine Prog.Safe.perform (fun _ => ht) (by rw [hexec]; exact hsaving) ?_
    refine ⟨by rw [hexec]; exact hsaving, length_exec_history env _ _, ?_⟩
    rw [hexec]
    exact ⟨iff_of_false Bool.false_ne_true (Option.some_ne_none k),
      fun h => absurd h Bool.false_ne_true, fun _ => hnone⟩
  | none =>
    have hexec := exec_rename hf hfile
    have hnew : (env.exec (.rename (temporaryPath path) path) t).2.files path =
        some (checkpointText cp) := by rw [hexec, World.setFile_files_self]
    have hgone : (env.exec (.rename (temporaryPath path) path) t).2.files (temporaryPath path) =
        none := by
      rw [hexec, World.setFile_files_of_ne _ _ _ _ (temporaryPath_ne path),
        World.setFile_files_self]
    have hok : (env.exec (.rename (temporaryPath path) path) t).1 = true := by rw [hexec]
    have hsaving : Saving path cp w (env.exec (.rename (temporaryPath path) path) t).2 := by
      refine ht.step (o := .rename (temporaryPath path) path) (fun q hq => ?_)
        (exec_same env _ t) fun _ => Or.inr (Or.inr hnew)
      simp only [FileOp.touches, List.mem_cons, List.not_mem_nil, or_false] at hq
      exact hq.symm
    refine Prog.Safe.perform (fun _ => ht) hsaving ⟨hsaving, length_exec_history env _ _,
      iff_of_true hok rfl, fun _ => ⟨hnew, hgone⟩, fun h => ?_⟩
    rw [hok] at h
    cases h

end Saving

theorem saveCheckpoint_safe {env : Env} (hs : env.Steady) (path : Bytes)
    (cp : TransferCheckpoint) (w : World) :
    Prog.Safe env.exec cutAfter (Saving path cp w) (saveCheckpoint path cp) w
      (SaveEnd env path cp w) := by
  refine (openTemporary_safe env path cp w).bind ?_
  rintro opened t1 ⟨ht1, hold, hlen1, hopen, hopened⟩
  cases opened with
  | false =>
    refine Prog.Safe.pure ht1 ⟨ht1, ?_, fun h => absurd h Bool.false_ne_true,
      fun h => absurd h Bool.false_ne_true, fun _ => Or.inl hold⟩
    exact iff_of_false Bool.false_ne_true fun h => absurd (hopen.mpr h.1) Bool.false_ne_true
  | true =>
    obtain ⟨hempty, hstream⟩ := hopened rfl
    refine (writeTemporary_safe hs ht1 hempty hstream).bind ?_
    rintro _ t2 ⟨ht2, hview, hlen2⟩
    refine (closeTemporary_safe hs ht2 hview).bind ?_
    rintro _ t3 ⟨ht3, hfile3, hlen3⟩
    refine (removeOld_safe hs ht3 hfile3).bind ?_
    rintro _ t4 ⟨ht4, hnone, hfile4, hlen4⟩
    have hcalls : t4.history.length = w.history.length+4 := by rw [hlen4, hlen3, hlen2, hlen1]
    refine (renameTemporary_safe ht4 hnone hfile4).mono (fun _ h => h) ?_
    rintro ok t5 ⟨ht5, hlen5, hrename, hnew, hgone⟩
    rw [hcalls] at hlen5 hrename
    refine ⟨ht5, ?_, fun _ => hlen5, hnew, fun h => Or.inr (hgone h)⟩
    rw [hrename, eq_true (hopen.mp rfl), true_and]

/-- A system on which every call that does not touch the temporary file works, and every save
reports success and leaves a text related by `S` to the checkpoint it was given. -/
structure SaveLaw (env : Env) (path : Bytes) (S : TransferCheckpoint → Bytes → Prop) : Prop where
  calls : ∀ n o, temporaryPath path ∉ FileOp.touches o → env.fault n o = none
  save : ∀ cp w w' ok, Prog.run env.exec (saveCheckpoint path cp) w = (ok, w') → ok = true ∧
    (∃ text, w'.files path = some text ∧ S cp text) ∧ w'.files (temporaryPath path) = none ∧
    ∀ q, q ≠ path → q ≠ temporaryPath path → World.Same q w w'

/-- A save on a reliable system writes the text itself. -/
theorem Env.Reliable.saveLaw {env : Env} (hr : env.Reliable) (path : Bytes) :
    SaveLaw env path fun cp text => text = checkpointText cp := by
  refine ⟨fun n o _ => hr n o, fun cp w w' ok hrun => ?_⟩
  have hsave := (saveCheckpoint_safe hr.steady path cp w).returns
  have hok := hsave.ok_iff.mpr ⟨hr _ _, hr _ _⟩
  rw [hrun] at hsave hok
  obtain ⟨hfile, htmp⟩ := hsave.saved hok
  exact ⟨hok, ⟨_, hfile, rfl⟩, htmp, hsave.saving.same⟩

def saveAndLoad (path : Bytes) (checkpoint : TransferCheckpoint) :
    FileProg (Bool × Option TransferCheckpoint) := do
  let saved ← saveCheckpoint path checkpoint
  let loaded ← loadCheckpoint path
  return (saved, loaded)

theorem run_loadCheckpoint {env : Env} {path : Bytes} {w : World}
    (hf : env.fault w.history.length (.read path) = none) :
    (Prog.run env.exec (loadCheckpoint path) w).1 = (w.files path).bind parseCheckpoint := by
  rw [loadCheckpoint, call, Prog.run_bind, Prog.run_perform, exec_read hf, Prog.run_pure]

theorem run_saveAndLoad {env : Env} (hr : env.Reliable) (path : Bytes) (cp : TransferCheckpoint)
    (w : World) : (Prog.run env.exec (saveAndLoad path cp) w).1 =
      (true, parseCheckpoint (checkpointText cp)) := by
  have hsave := (hr.saveLaw path).save cp w
  rw [saveAndLoad, Prog.run_bind]
  generalize Prog.run env.exec (saveCheckpoint path cp) w = saved at hsave ⊢
  obtain ⟨ok, w1⟩ := saved
  obtain ⟨rfl, ⟨text, hfile, rfl⟩, -, -⟩ := hsave w1 ok rfl
  rw [Prog.run_bind, Prog.run_pure, run_loadCheckpoint (hr _ _), hfile, Option.bind_some]

/-- A checkpoint comes back from its file exactly when its file name has no line break. -/
theorem saveAndLoad_eq_iff {env : Env} (hr : env.Reliable) (path : Bytes)
    (cp : TransferCheckpoint) (w : World) :
    (Prog.run env.exec (saveAndLoad path cp) w).1 = (true, some cp) ↔
      newline ∉ cp.originalFilename := by
  rw [run_saveAndLoad hr, Prod.mk.injEq, eq_self, true_and]
  exact ⟨parseCheckpoint_no_newline _ cp, parseCheckpoint_of_no_newline cp⟩

theorem saveAndLoad_eq_iff_direct :
    (Prog.run Env.direct.exec (saveAndLoad (ascii "out.pbcheckpoint")
      { originalFilename := ascii "a=b,completed=7", fileSize := 3, chunkSize := 2,
        totalChunks := 2, completedChunks := AscSet.insertAll [1] ∅ })
      (boot fun _ => none)).1 = (true, some
      { originalFilename := ascii "a=b,completed=7", fileSize := 3, chunkSize := 2,
        totalChunks := 2, completedChunks := AscSet.insertAll [1] ∅ }) :=
  (saveAndLoad_eq_iff Env.direct_reliable _ _ _).mpr (by decide)

end PacketBridge
