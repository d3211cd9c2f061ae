import PacketBridge.CheckpointFile

namespace PacketBridge
open Foundations

/-- What a process that is started on these files loads from a checkpoint path. -/
def reloaded (files : Files) (path : Bytes) : Option TransferCheckpoint :=
  (Prog.run Env.direct.exec (loadCheckpoint path) (boot files)).1

theorem reloaded_eq (files : Files) (path : Bytes) :
    reloaded files path = (files path).bind parseCheckpoint :=
  run_loadCheckpoint rfl

/-- A call on the temporary file leaves the checkpoint alone, whole or cut short. -/
theorem exec_temporary (env : Env) (path : Bytes) (o : FileOp)
    (ho : o.touches = [temporaryPath path]) (t : World) (c : ℕ) :
    (env.exec o t).2.files path = t.files path ∧ (cutAfter c o t).files path = t.files path := by
  have hp : path ∉ o.touches := by
    rw [ho, List.mem_singleton]
    exact Ne.symm (temporaryPath_ne path)
  exact ⟨(exec_same env o t path hp).files, (cutAfter_same c o t path hp).files⟩

theorem crash_saveCheckpoint_opened {env : Env} (hs : env.Steady) (path : Bytes)
    (cp : TransferCheckpoint) (t : World) (hempty : t.files (temporaryPath path) = some [])
    (hstream : t.streams (temporaryPath path) = { good := true }) (c n : ℕ) :
    (Prog.crash env.exec (cutAfter c) n (do
      let _ ← call (.write (temporaryPath path) (checkpointText cp))
      call (.close (temporaryPath path))
      let _ ← call (.remove path)
      call (.rename (temporaryPath path) path)) t).files path =
      if n < 3 then t.files path
      else if n = 3 ∨
          env.fault (t.history.length+3) (.rename (temporaryPath path) path) ≠ none then none
      else some (checkpointText cp) := by
  have hwrite := exec_temporary env path (.write (temporaryPath path) (checkpointText cp)) rfl t c
  have hview : (env.exec (.write (temporaryPath path) (checkpointText cp)) t).2.view
      (temporaryPath path) = some (checkpointText cp) :=
    exec_write_view_new (hs _ _ rfl) hempty hstream
  have hlen1 := length_exec_history env (.write (temporaryPath path) (checkpointText cp)) t
  generalize hw1 : (env.exec (.write (temporaryPath path) (checkpointText cp)) t).2 = t1
    at hwrite hview hlen1
  have hclose := exec_temporary env path (.close (temporaryPath path)) rfl t1 c
  have hfile : (env.exec (.close (temporaryPath path)) t1).2.files (temporaryPath path) =
      some (checkpointText cp) := (exec_close_files (hs _ _ rfl)).trans hview
  have hlen2 := length_exec_history env (.close (temporaryPath path)) t1
  generalize hw2 : (env.exec (.close (temporaryPath path)) t1).2 = t2 at hclose hfile hlen2
  obtain ⟨hnone, hothers⟩ := exec_remove_files (hs t2.history.length (.remove path) rfl)
  have hlen3 := length_exec_history env (.remove path) t2
  have hkept : (env.exec (.remove path) t2).2.files (temporaryPath path) =
      some (checkpointText cp) := (hothers _ (temporaryPath_ne path)).trans hfile
  generalize hw3 : (env.exec (.remove path) t2).2 = t3 at hnone hothers hkept hlen3
  have hlen : t3.history.length = t.history.length+3 := by rw [hlen3, hlen2, hlen1]
  -- one case for each call behind which the save may be stopped
  match n with
  | 0 =>
    rw [if_pos (by omega), call, Prog.crash_perform_bind_zero]
    exact hwrite.2
  | 1 =>
    rw [if_pos (by omega), call, Prog.crash_perform_bind_succ, hw1]
    exact hclose.2.trans hwrite.1
  | 2 =>
    rw [if_pos (by omega), call, Prog.crash_perform_bind_succ, hw1, call,
      Prog.crash_perform_bind_succ, hw2, call, Prog.crash_perform_bind_zero]
    exact hclose.1.trans hwrite.1
  | 3 =>
    rw [if_neg (by omega), if_pos (Or.inl rfl), call, Prog.crash_perform_bind_succ, hw1, call,
      Prog.crash_perform_bind_succ, hw2, call, Prog.crash_perform_bind_succ, hw3, call,
      Prog.crash_perform_zero]
    exact hnone
  | n+4 =>
    rw [if_neg (by omega), call, Prog.crash_perform_bind_succ, hw1, call,
      Prog.crash_perform_bind_succ, hw2, call, Prog.crash_perform_bind_succ, hw3, call,
      Prog.crash_perform_succ, ← hlen]
    cases hf : env.fault t3.history.length (.rename (temporaryPath path) path) with
    | some k =>
      rw [exec_rename_fault (by rw [hf]; exact Option.some_ne_none k),
        if_pos (Or.inr (Option.some_ne_none k))]
      exact hnone
    | none =>
      rw [exec_rename hf hkept, if_neg (by simp)]
      exact World.setFile_files_self _ _ _

/-- The file at the path after a save that was stopped behind its `n`-th call. -/
theorem crash_saveCheckpoint {env : Env} (hs : env.Steady) (path : Bytes)
    (cp : TransferCheckpoint) (w : World) (c n : ℕ) :
    (Prog.crash env.exec (cutAfter c) n (saveCheckpoint path cp) w).files path =
      if env.fault w.history.length (.openTrunc (temporaryPath path)) ≠ none ∨ n < 4 then
        w.files path
      else if n = 4 ∨
          env.fault (w.history.length+4) (.rename (temporaryPath path) path) ≠ none then none
      else some (checkpointText cp) := by
  have hopen := exec_temporary env path (.openTrunc (temporaryPath path)) rfl w c
  cases n with
  | zero =>
    rw [if_pos (Or.inr (by omega))]
    exact hopen.2
  | succ n =>
    cases hf : env.fault w.history.length (.openTrunc (temporaryPath path)) with
    | some k =>
      have hex : env.exec (.openTrunc (temporaryPath path)) w = _ :=
        exec_openTrunc_fault (by rw [hf]; exact Option.some_ne_none k)
      rw [if_pos (Or.inl (Option.some_ne_none k)), ← hopen.1, saveCheckpoint, call,
        Prog.crash_perform_bind_succ, hex]
      simp only [Bool.false_eq_true, ↓reduceIte, Prog.crash_pure]
    | none =>
      obtain ⟨hok, hempty, hstream⟩ := exec_openTrunc_new hf
      have hlen := length_exec_history env (.openTrunc (temporaryPath path)) w
      rw [saveCheckpoint, call, Prog.crash_perform_bind_succ, if_pos hok, ← hopen.1]
      simp only [ne_eq, not_true_eq_false, false_or]
      generalize (env.exec (.openTrunc (temporaryPath path)) w).2 = t at hlen hempty hstream
      have hopened := crash_saveCheckpoint_opened hs path cp t hempty hstream c n
      have hlen' : t.history.length+3 = w.history.length+4 := by
        rw [hlen, Nat.add_assoc]
      have hlt : n+1 < 4 ↔ n < 3 := by omega
      have heq : n+1 = 4 ↔ n = 3 := by omega
      rw [hlen'] at hopened
      simp only [hlt, heq]
      exact hopened

/-- Wherever a save is stopped, the old checkpoint or the new one is loaded afterwards, exactly
unless an old one was removed and the new one has not taken its name. -/
theorem saveCheckpoint_atomic_iff {env : Env} (hs : env.Steady) (path : Bytes)
    (old : Option TransferCheckpoint) (new : TransferCheckpoint)
    (hold : ∀ cp ∈ old, newline ∉ cp.originalFilename) (hnew : newline ∉ new.originalFilename)
    (w : World) (hw : w.files path = old.map checkpointText) (c n : ℕ) :
    (reloaded (Prog.crash env.exec (cutAfter c) n (saveCheckpoint path new) w).files path = old ∨
      reloaded (Prog.crash env.exec (cutAfter c) n (saveCheckpoint path new) w).files path =
        some new) ↔
      old = none ∨ env.fault w.history.length (.openTrunc (temporaryPath path)) ≠ none ∨ n < 4 ∨
        (4 < n ∧ env.fault (w.history.length+4) (.rename (temporaryPath path) path) = none) := by
  have hkept : (w.files path).bind parseCheckpoint = old := by
    rw [hw]
    cases old with
    | none => rfl
    | some cp =>
      rw [Option.map_some, Option.bind_some, parseCheckpoint_of_no_newline cp (hold cp rfl)]
  rw [reloaded_eq, crash_saveCheckpoint hs]
  by_cases hbefore : env.fault w.history.length (.openTrunc (temporaryPath path)) ≠ none ∨ n < 4
  · -- the old file is still in its place
    rw [if_pos hbefore]
    refine iff_of_true (Or.inl hkept) (Or.inr ?_)
    exact hbefore.imp_right Or.inl
  · rw [if_neg hbefore]
    rw [not_or, not_not, not_lt] at hbefore
    obtain ⟨hopen, hn⟩ := hbefore
    by_cases hgap : n = 4 ∨
        env.fault (w.history.length+4) (.rename (temporaryPath path) path) ≠ none
    · -- the old file is gone and nothing has come in its place
      rw [if_pos hgap, Option.bind_none]
      constructor
      · rintro (h | h)
        · exact Or.inl h.symm
        · cases h
      · rintro (h | h | h | ⟨h, hr⟩)
        · exact Or.inl h.symm
        · exact absurd hopen h
        · omega
        · rcases hgap with rfl | hf
          · omega
          · exact absurd hr hf
    · rw [if_neg hgap, Option.bind_some, parseCheckpoint_of_no_newline new hnew]
      rw [not_or, not_not] at hgap
      exact iff_of_true (Or.inr rfl) (Or.inr (Or.inr (Or.inr ⟨by omega, hgap.2⟩)))

def firstDone : TransferCheckpoint :=
  { originalFilename := ascii "a", fileSize := 3, chunkSize := 2, totalChunks := 2
    completedChunks := AscSet.insertAll [0] ∅ }

def bothDone : TransferCheckpoint :=
  { firstDone with completedChunks := AscSet.insertAll [0, 1] ∅ }

def firstDoneFiles : Files :=
  Function.update (fun _ => none) (ascii "a.pbcheckpoint") (some (checkpointText firstDone))

theorem firstDoneFiles_eq :
    (boot firstDoneFiles).files (ascii "a.pbcheckpoint") = (some firstDone).map checkpointText := by
  rw [World.boot_files, firstDoneFiles, Function.update_self, Option.map_some]

theorem saveCheckpoint_atomic_iff_end :
    let files := (Prog.crash Env.direct.exec (cutAfter 0) 5
      (saveCheckpoint (ascii "a.pbcheckpoint") bothDone) (boot firstDoneFiles)).files
    reloaded files (ascii "a.pbcheckpoint") = some firstDone ∨
      reloaded files (ascii "a.pbcheckpoint") = some bothDone :=
  (saveCheckpoint_atomic_iff Env.direct_reliable.steady _ (some firstDone) bothDone
    (fun cp h => by obtain rfl := Option.some.inj h; decide) (by decide) _ firstDoneFiles_eq 0
    5).mpr (Or.inr (Or.inr (Or.inr ⟨by decide, rfl⟩)))

/-- Killed after the fourth call, the process leaves no checkpoint at all. -/
theorem saveCheckpoint_loses_old :
    reloaded firstDoneFiles (ascii "a.pbcheckpoint") = some firstDone ∧
    reloaded (Prog.crash Env.direct.exec (cutAfter 0) 4
      (saveCheckpoint (ascii "a.pbcheckpoint") bothDone) (boot firstDoneFiles)).files
      (ascii "a.pbcheckpoint") = none := by
  constructor
  · rw [reloaded_eq, ← World.boot_files firstDoneFiles, firstDoneFiles_eq, Option.map_some,
      Option.bind_some, parseCheckpoint_of_no_newline firstDone (by decide)]
  · rw [reloaded_eq, crash_saveCheckpoint Env.direct_reliable.steady, if_neg (by
      rintro (h | h)
      · exact h rfl
      · omega), if_pos (Or.inl rfl)]
    rfl

end PacketBridge
