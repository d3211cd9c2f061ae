import PacketBridge.Deliveries
import PacketBridge.KilledRuns

namespace PacketBridge
open Foundations

/-- The output took the writes of the chunks `done`, whole or in part, and no others. -/
def WritesOf (m : FileManifest) (out : Bytes) (done : List (UInt64 × Bytes)) (w : World) : Prop :=
  w.writesTo out = done.map fun x => (m.chunkOffset x.1, x.2)

/-- The checkpoint on the disk lists the chunks the run started with and the chunks `listed`. -/
def Lists (files : Files) (m : FileManifest) (out : Bytes) (listed : List (UInt64 × Bytes))
    (w : World) : Prop :=
  w.files (checkpointPathForOutput out) =
    some (checkpointText ((startingCheckpoint files m out).withChunks (listed.map Prod.fst)))

/-- The chunks `done` are written, and the checkpoint lists them, but perhaps the last. -/
structure Recorded (files : Files) (m : FileManifest) (out : Bytes)
    (chunks done listed : List (UInt64 × Bytes)) (w : World) : Prop where
  front : done <+: chunks
  writes : WritesOf m out done w
  listedFront : listed <+: done
  few : done.length ≤ listed.length+1
  lists : Lists files m out listed w

/-- The chunks written are the first of `chunks`, and there is no checkpoint, or one that lists all
of them but perhaps the last. -/
def NotBehind (files : Files) (m : FileManifest) (out : Bytes) (chunks : List (UInt64 × Bytes))
    (w : World) : Prop :=
  ∃ done, done <+: chunks ∧ WritesOf m out done w ∧
    (w.files (checkpointPathForOutput out) = none ∨
      ∃ listed, Recorded files m out chunks done listed w)

variable {files : Files} {m : FileManifest} {out : Bytes}
  {chunks done listed : List (UInt64 × Bytes)} {env : Env} {w w' : World}

theorem Recorded.congr (h : Recorded files m out chunks done listed w)
    (hwrites : w'.writesTo out = w.writesTo out)
    (hckpt : w'.files (checkpointPathForOutput out) = w.files (checkpointPathForOutput out)) :
    Recorded files m out chunks done listed w' :=
  ⟨h.front, hwrites.trans h.writes, h.listedFront, h.few, hckpt.trans h.lists⟩

theorem NotBehind.congr (h : NotBehind files m out chunks w)
    (hwrites : w'.writesTo out = w.writesTo out)
    (hckpt : w'.files (checkpointPathForOutput out) = w.files (checkpointPathForOutput out)) :
    NotBehind files m out chunks w' := by
  obtain ⟨done, hfront, hdone, hcase⟩ := h
  refine ⟨done, hfront, hwrites.trans hdone, ?_⟩
  rcases hcase with hnone | ⟨listed, hlisted⟩
  · exact Or.inl (hckpt.trans hnone)
  · exact Or.inr ⟨listed, hlisted.congr hwrites hckpt⟩

theorem Recorded.notBehind (h : Recorded files m out chunks done listed w) :
    NotBehind files m out chunks w :=
  ⟨done, h.front, h.writes, Or.inr ⟨listed, h⟩⟩

/-- A call that is no write to the output and leaves its checkpoint. -/
structure Beside (out : Bytes) (o : FileOp) : Prop where
  noWrite : ∀ data, o ≠ .write out data
  leaves : checkpointPathForOutput out ∉ o.touches

theorem exec_writesTo (env : Env) {o : FileOp} (ho : ∀ data, o ≠ .write out data) (w : World) :
    (env.exec o w).2.writesTo out = w.writesTo out := by
  cases o with
  | write p data =>
    have hne : out ≠ p := by
      rintro rfl
      exact ho data rfl
    exact (exec_same env (.write p data) w out (not_mem_touches hne rfl)).writesTo
  | _ =>
    simp only [Env.exec, FileOp.effect]
    repeat' split
    all_goals rfl

theorem cutAfter_writesTo (k : ℕ) {o : FileOp} (ho : ∀ data, o ≠ .write out data) (w : World) :
    (cutAfter k o w).writesTo out = w.writesTo out := by
  cases o with
  | write p data =>
    have hne : out ≠ p := by
      rintro rfl
      exact ho data rfl
    exact (cutAfter_same k (.write p data) w out (not_mem_touches hne rfl)).writesTo
  | _ => rfl

/-- Such calls keep what only speaks of the writes and the checkpoint. -/
theorem beside_kept (env : Env) {K : World → Prop}
    (hcongr : ∀ w w', K w → w'.writesTo out = w.writesTo out →
      w'.files (checkpointPathForOutput out) = w.files (checkpointPathForOutput out) → K w')
    {α : Type} {p : FileProg α} (hp : Prog.Calls (Beside out) p) (hw : K w) :
    Prog.Safe env.exec cutAfter K p w fun _ => K := by
  apply Prog.Calls.safe env.exec hp hw
  · intro o t ho ht
    exact hcongr t _ ht (exec_writesTo env ho.noWrite t) (exec_same env o t _ ho.leaves).files
  · intro k o t ho ht
    exact hcongr t _ ht (cutAfter_writesTo k ho.noWrite t) (cutAfter_same k o t _ ho.leaves).files

theorem beside_of_touches {o : FileOp} (hw : ∀ data, o ≠ .write out data) (ho : o.touches = [out]) :
    Beside out o := ⟨hw, not_mem_touches (checkpointPath_ne out) ho⟩

theorem beside_read (out q : Bytes) : Beside out (.read q) :=
  ⟨fun _ => nofun, List.not_mem_nil⟩

section Turn

/-- A seek leaves the stream at its target, or not good. -/
theorem exec_seekp_place {offset : UInt64}
    (hf : env.fault w.history.length (.seekp out offset) = none) :
    let st := (env.exec (.seekp out offset) w).2.streams out
    st.good = true → offset.toNat < maxOffset ∧ st = { good := true, position := offset.toNat } := by
  intro st hgood
  cases hg : (w.streams out).good with
  | false =>
    simp only [st, exec_seekp_bad hg, World.log_streams] at hgood
    rw [hg] at hgood
    cases hgood
  | true =>
    by_cases hnear : offset.toNat < maxOffset
    · simp only [st, exec_seekp hf hg hnear, World.setStream_streams_self]
      exact ⟨hnear, trivial⟩
    · simp only [st, exec_seekp_far hf hg hnear, World.setStream_streams_self] at hgood
      cases hgood

theorem seekp_recorded (hs : env.Steady) (offset : UInt64)
    (h : Recorded files m out chunks done listed w) :
    Prog.Safe env.exec cutAfter (NotBehind files m out chunks) (call (.seekp out offset)) w
      fun _ t => Recorded files m out chunks done listed t ∧ ((t.streams out).good = true →
        offset.toNat < maxOffset ∧
          t.streams out = { good := true, position := offset.toNat }) := by
  have hcalls : Prog.Calls (Beside out) (call (.seekp out offset)) :=
    calls_call (beside_of_touches (fun _ => nofun) rfl)
  have hkept := beside_kept env (fun _ _ ht => ht.congr) hcalls h
  refine ⟨fun c n => (hkept.always c n).notBehind, hkept.returns, ?_⟩
  exact exec_seekp_place (hs w.history.length (.seekp out offset) rfl)

/-- The write of a turn: one chunk more is written than the checkpoint lists. -/
theorem write_recorded (hs : env.Steady) (h : Recorded files m out chunks done done w)
    {x : UInt64 × Bytes} (hfront : done ++ [x] <+: chunks)
    (hstream : w.streams out = { good := true, position := m.chunkOffset x.1 }) :
    Prog.Safe env.exec cutAfter (NotBehind files m out chunks) (call (.write out x.2)) w
      fun ok t => ok = true ∧ Recorded files m out chunks (done ++ [x]) done t := by
  have hckpt := not_mem_touches (checkpointPath_ne out) (o := .write out x.2) rfl
  have hg : (w.streams out).good = true := by rw [hstream]
  have hwrites : (w.buffer out x.2).writesTo out =
      (done ++ [x]).map fun x => (m.chunkOffset x.1, x.2) := by
    rw [World.buffer_writesTo_self, hstream, List.map_append, ← h.writes]
    rfl
  have hone (t : World) (hwritten : t.writesTo out = (w.buffer out x.2).writesTo out)
      (hfile : t.files (checkpointPathForOutput out) = w.files (checkpointPathForOutput out)) :
      Recorded files m out chunks (done ++ [x]) done t := by
    refine ⟨hfront, hwritten.trans hwrites, List.prefix_append _ _, ?_, hfile.trans h.lists⟩
    rw [List.length_append, List.length_singleton]
  have hexec := exec_write (hs w.history.length (.write out x.2) rfl) hg
  have hdone : Recorded files m out chunks (done ++ [x]) done (env.exec (.write out x.2) w).2 := by
    apply hone _ _ (exec_same env _ w _ hckpt).files
    rw [hexec]
    rfl
  apply Prog.Safe.perform
  · intro k
    apply (hone _ _ (cutAfter_same k _ w _ hckpt).files).notBehind
    rw [cutAfter, if_neg (by rw [hg]; decide)]
    rfl
  · exact hdone.notBehind
  · exact ⟨by rw [hexec], hdone⟩

theorem saveCheckpoint_recorded (hs : env.Steady)
    (h : Recorded files m out chunks done listed w) :
    Prog.Safe env.exec cutAfter (NotBehind files m out chunks)
      (saveCheckpoint (checkpointPathForOutput out)
        ((startingCheckpoint files m out).withChunks (done.map Prod.fst))) w
      fun ok t => (ok = true → Recorded files m out chunks done done t) ∧
        NotBehind files m out chunks t := by
  have hne : out ≠ checkpointPathForOutput out := Ne.symm (checkpointPath_ne out)
  have hnt : out ≠ temporaryPath (checkpointPathForOutput out) :=
    Ne.symm (temporaryPath_checkpointPath_ne out)
  have hlisted (t : World) (hwrites : t.writesTo out = w.writesTo out)
      (ht : Lists files m out done t) : Recorded files m out chunks done done t :=
    ⟨h.front, hwrites.trans h.writes, List.prefix_refl _, Nat.le_succ _, ht⟩
  have hsaving : ∀ t, Saving (checkpointPathForOutput out)
      ((startingCheckpoint files m out).withChunks (done.map Prod.fst)) w t →
      NotBehind files m out chunks t := by
    intro t ht
    have hwrites := (ht.same out hne hnt).writesTo
    rcases ht.file with hf | hf | hf
    · exact h.notBehind.congr hwrites hf
    · exact ⟨done, h.front, hwrites.trans h.writes, Or.inl hf⟩
    · exact (hlisted t hwrites hf).notBehind
  refine (saveCheckpoint_safe hs _ _ w).mono hsaving ?_
  intro ok t hend
  refine ⟨?_, hsaving t hend.saving⟩
  intro hok
  exact hlisted t (hend.saving.same out hne hnt).writesTo (hend.saved hok).1

end Turn

/-- One turn of the loop, whatever the streams keep in their buffers. -/
theorem recorded_rules (hs : env.Steady) : LoopRules env m out (checkpointPathForOutput out)
    (startingCheckpoint files m out) chunks (NotBehind files m out chunks)
    (NotBehind files m out chunks) (fun done w => Recorded files m out chunks done done w)
    (fun done w => ∃ listed, Recorded files m out chunks done listed w) where
  ended := fun _ h => h
  ready := fun _ _ h => h.notBehind
  store := by
    intro done x offset w h hx hoff hfront
    refine (seekp_recorded hs offset h).bind ?_
    rintro _ t ⟨hrecorded, hplace⟩
    cases hg : (t.streams out).good with
    | false =>
      have hlog : NotBehind files m out chunks (t.log (.write out x.2)) :=
        hrecorded.notBehind.congr rfl rfl
      refine (write_bad_safe hg hrecorded.notBehind hlog).mono (fun _ h => h) ?_
      rintro _ _ ⟨rfl, rfl⟩
      exact ⟨fun hb => absurd hb Bool.false_ne_true, fun _ => hlog⟩
    | true =>
      obtain ⟨hnear, hstream⟩ := hplace hg
      rw [hoff] at hstream
      refine (write_recorded hs hrecorded (hfront hnear) hstream).mono (fun _ h => h) ?_
      rintro _ t' ⟨rfl, hwritten⟩
      exact ⟨fun _ => ⟨hnear, done, hwritten⟩, fun hb => absurd hb.symm Bool.false_ne_true⟩
  save := by
    rintro done w ⟨listed, h⟩
    refine (saveCheckpoint_recorded hs h).mono (fun _ h => h) ?_
    rintro ok t ⟨hsaved, hend⟩
    exact ⟨hsaved, fun _ => hend⟩

/-- The transfer from the preparation of the output to the end of the loop. -/
theorem receiveFileChunks_notBehind (hs : env.Steady) (hm : m.Planned) (t : ProgressTracker)
    (s : TcpSocket) (ho : s.isOpen = true) (fresh : Bool)
    (hw : Recorded files m out
      (acceptChunks m (requestedChunks files m out) s.incoming).chunks [] [] w) :
    Prog.Safe env.exec cutAfter
      (NotBehind files m out (acceptChunks m (requestedChunks files m out) s.incoming).chunks)
      (receiveFileChunks s out (checkpointPathForOutput out) m (requestedChunks files m out)
        (startingCheckpoint files m out) t fresh) w
      fun _ => NotBehind files m out
        (acceptChunks m (requestedChunks files m out) s.incoming).chunks := by
  generalize hall : (acceptChunks m (requestedChunks files m out) s.incoming).chunks = chunks
    at hw ⊢
  have hprepare : Prog.Calls (Beside out) (prepareOutputFile out fresh) := by
    cases fresh with
    | true =>
      apply (calls_call (beside_of_touches (o := .openTrunc out) (fun _ => nofun) rfl)).bind
      intro create
      exact (calls_call (beside_of_touches (o := .close out) (fun _ => nofun) rfl)).bind
        fun _ => Prog.calls_pure _
    | false => exact calls_fileExists (beside_read out) out
  have hopen : Prog.Calls (Beside out) (call (.openInOut out)) :=
    calls_call (beside_of_touches (fun _ => nofun) rfl)
  have hclose : Prog.Calls (Beside out) (call (.close out)) :=
    calls_call (beside_of_touches (fun _ => nofun) rfl)
  -- until the loop begins nothing is written
  have hbefore {α : Type} {p : FileProg α} (hp : Prog.Calls (Beside out) p) {w : World}
      (hw : Recorded files m out chunks [] [] w) :
      Prog.Safe env.exec cutAfter (NotBehind files m out chunks) p w
        fun _ => Recorded files m out chunks [] [] :=
    (beside_kept env (fun _ _ ht => ht.congr) hp hw).mono (fun _ h => h.notBehind) fun _ _ h => h
  refine (hbefore hprepare hw).bind ?_
  intro prepared w1 hw1
  cases prepared with
  | false => exact Prog.Safe.pure hw1.notBehind hw1.notBehind
  | true =>
    rw [if_pos rfl]
    refine (hbefore hopen hw1).bind ?_
    intro opened w2 hw2
    cases opened with
    | false => exact Prog.Safe.pure hw2.notBehind hw2.notBehind
    | true =>
      rw [if_pos rfl]
      have hloop := (recorded_rules hs).safe hm (requestedChunks files m out) [] t s w2 ho hall hw2
      rw [List.map_nil, withChunks_nil] at hloop
      refine hloop.bind ?_
      intro result w3 hw3
      refine (beside_kept env (fun _ _ ht => ht.congr) hclose hw3).bind ?_
      intro _ w4 hw4
      exact Prog.Safe.pure hw4 hw4

theorem verifyOutput_notBehind (hs : env.Steady) (s : TcpSocket)
    (hw : NotBehind files m out chunks w) :
    Prog.Safe env.exec cutAfter (NotBehind files m out chunks)
      (verifyOutput s out (checkpointPathForOutput out) m) w
      fun _ => NotBehind files m out chunks := by
  have hcalls : Prog.Calls
      (fun o : FileOp => Beside out o ∨ o = .remove (checkpointPathForOutput out))
      (verifyOutput s out (checkpointPathForOutput out) m) :=
    calls_verifyOutput (fun q => Or.inl (beside_read out q)) (Or.inr rfl) out m s
  apply Prog.Calls.safe env.exec hcalls hw
  · rintro o t (ho | rfl) ht
    · exact ht.congr (exec_writesTo env ho.noWrite t) (exec_same env o t _ ho.leaves).files
    · obtain ⟨done, hfront, hwrites, -⟩ := ht
      refine ⟨done, hfront, ?_, Or.inl (exec_remove_files (hs _ _ rfl)).1⟩
      exact (exec_writesTo env (o := .remove (checkpointPathForOutput out)) (fun _ => nofun) t).trans
        hwrites
  · rintro k o t (ho | rfl) ht
    · exact ht.congr (cutAfter_writesTo k ho.noWrite t) (cutAfter_same k o t _ ho.leaves).files
    · exact ht

/-- Nothing is written, and the output and its checkpoint are as the run found them. -/
structure AsFound (files : Files) (out : Bytes) (w : World) : Prop where
  writes : w.writesTo out = []
  output : w.files out = files out
  checkpoint : w.files (checkpointPathForOutput out) = files (checkpointPathForOutput out)

def KillPoint (files : Files) (m : FileManifest) (out : Bytes) (chunks : List (UInt64 × Bytes))
    (w : World) : Prop := AsFound files out w ∨ NotBehind files m out chunks w

theorem receiverSession_killPoint (hs : env.Steady) (dir : Bytes) (hm : m.Planned) (files : Files)
    (s : TcpSocket) (ho : s.isOpen = true) :
    Prog.Safe env.exec cutAfter
      (KillPoint files m (outputPathFor dir m) (acceptChunks m
        (requestedChunks files m (outputPathFor dir m)) s.incoming).chunks)
      (receiverSession dir m s) (boot files) fun _ _ => True := by
  have hne := Ne.symm (checkpointPath_ne (outputPathFor dir m))
  have hnt := Ne.symm (temporaryPath_checkpointPath_ne (outputPathFor dir m))
  generalize hall : (acceptChunks m (requestedChunks files m (outputPathFor dir m))
    s.incoming).chunks = chunks
  -- the initial save lists no chunk that was not there
  have hnothing (t : World) (ht : t.writesTo (outputPathFor dir m) = [])
      (hlists : Lists files m (outputPathFor dir m) [] t) :
      Recorded files m (outputPathFor dir m) chunks [] [] t :=
    ⟨List.nil_prefix, ht, List.prefix_refl _, Nat.zero_le _, hlists⟩
  apply receiverSession_safe hs dir files s ho
    (E := NotBehind files m (outputPathFor dir m) chunks)
  · intro t ht
    exact Or.inl ⟨(ht _).writesTo, (ht _).files, (ht _).files⟩
  · intro w t hsame ht
    have hkept := (hsame _).trans (ht.same _ hne hnt)
    rcases ht.file with hf | hf | hf
    · exact Or.inl ⟨hkept.writesTo, hkept.files, hf.trans (hsame _).files⟩
    · exact Or.inr ⟨[], List.nil_prefix, hkept.writesTo, Or.inl hf⟩
    · exact Or.inr (hnothing t hkept.writesTo hf).notBehind
  · intro w w' client t hsame hend hopen hin
    have hkept := (hsame _).trans (hend.saving.same _ hne hnt)
    rw [← hin] at hall
    subst hall
    exact (receiveFileChunks_notBehind hs hm t client hopen _
      (hnothing w' hkept.writesTo (hend.saved rfl).1)).mono (fun _ => Or.inr) fun _ _ h => h
  · exact fun _ => Or.inr
  · intro w client hw
    exact (verifyOutput_notBehind hs client hw).mono (fun _ => Or.inr) fun _ _ _ => trivial

/-- Wherever it is killed, a run writes no more chunks than it asked for, and the run behind it that
goes on asks for the rest of them, and for at most one that is written already. -/
theorem KillPoint.attempt {bs : Bytes}
    (h : KillPoint files m out (acceptChunks m (requestedChunks files m out) bs).chunks w) :
    (w.writesTo out).length ≤ (requestedChunks files m out).length ∧
      ∀ cp, resumed w.files m out = some cp → ∃ taken,
        taken ++ missingChunks cp = requestedChunks files m out ∧
          (w.writesTo out).length ≤ taken.length+1 := by
  have hrequest := acceptChunks_prefix m (requestedChunks files m out) bs
  generalize (acceptChunks m (requestedChunks files m out) bs).chunks = chunks at h hrequest
  rcases h with ⟨hwrites, hout, hckpt⟩ | ⟨done, hfront, hwrites, hcase⟩
  · rw [hwrites]
    refine ⟨Nat.zero_le _, ?_⟩
    intro cp hcp
    have hres : resumed files m out = some cp := by
      rw [resumed_eq_some] at hcp ⊢
      rwa [hout, hckpt] at hcp
    refine ⟨[], ?_, Nat.zero_le _⟩
    rw [requestedChunks, startingCheckpoint, hres]
    rfl
  · have hlength : (w.writesTo out).length = done.length := by rw [hwrites, List.length_map]
    rw [hlength]
    refine ⟨?_, ?_⟩
    · have hle := ((hfront.map Prod.fst).trans hrequest).length_le
      rwa [List.length_map] at hle
    · intro cp hcp
      obtain ⟨-, ⟨text, htext, hparse⟩, -⟩ := resumed_eq_some.mp hcp
      rcases hcase with hnone | ⟨listed, hlisted⟩
      · rw [hnone] at htext
        cases htext
      · obtain rfl := Option.some.inj (htext.symm.trans hlisted.lists)
        refine ⟨listed.map Prod.fst, ?_, ?_⟩
        · have hmissing : missingChunks cp = missingChunks
              ((startingCheckpoint files m out).withChunks (listed.map Prod.fst)) := by
            rw [fields_of_parseCheckpoint _ _ hparse]
            rfl
          rw [hmissing]
          apply append_missingChunks_withChunks
          exact ((hlisted.listedFront.trans hlisted.front).map Prod.fst).trans hrequest
        · rw [List.length_map]
          exact hlisted.few

/-- A transfer over its runs: the chunks it set out to take, how many chunks were written, whole or
in part, and how many runs there were. -/
structure Tally where
  plan : List UInt64
  written : ℕ := 0
  runs : ℕ := 0

def Tally.begin (t : Tally) (files : Files) (m : FileManifest) (out : Bytes) : Tally :=
  match resumed files m out with
  | none => { plan := requestedChunks files m out }
  | some _ => t

def Tally.run (t : Tally) (out : Bytes) (w : World) : Tally :=
  { t with written := t.written+(w.writesTo out).length, runs := t.runs+1 }

/-- The directories that runs of the receiver can leave, with the tally of the transfer of the file
that is under way. Each run is for that file or for another, over any connection, on a system where
an opening or a renaming may fail, and is killed at any of its calls or in the middle of one. -/
inductive Attempts (dir : Bytes) (m : FileManifest) : Files → Tally → Prop where
  | start (files : Files) :
    Attempts dir m files { plan := requestedChunks files m (outputPathFor dir m) }
  | killed {files : Files} {t : Tally} (before : Attempts dir m files t) (env : Env)
    (hs : env.Steady) (s : TcpSocket) (ho : s.isOpen = true)
    (hm : (receiveFileManifest s).1 = some m) (k n : ℕ) :
    Attempts dir m (Prog.crash env.exec (cutAfter k) n (receiver dir s) (boot files)).files
      ((t.begin files m (outputPathFor dir m)).run (outputPathFor dir m)
        (Prog.crash env.exec (cutAfter k) n (receiver dir s) (boot files)))
  | other {files : Files} {t : Tally} (before : Attempts dir m files t) (env : Env)
    (s : TcpSocket) (m' : FileManifest) (hm : (receiveFileManifest s).1 = some m')
    (happart : NamesApart m.filename m'.filename) (k n : ℕ) :
    Attempts dir m (Prog.crash env.exec (cutAfter k) n (receiver dir s) (boot files)).files t

/-- A run that goes on asks for what is left of the plan, and the number of chunk writes is at most
the number of chunks it need not ask for and one for each run. -/
def Tally.Fits (t : Tally) (files : Files) (m : FileManifest) (out : Bytes) : Prop :=
  ∀ cp, resumed files m out = some cp → ∃ taken,
    taken ++ missingChunks cp = t.plan ∧ t.written ≤ taken.length+t.runs

/-- What a run asks for is the end of the plan it works on. -/
theorem Tally.Fits.begin {t : Tally} (h : t.Fits files m out) :
    ∃ taken, taken ++ requestedChunks files m out = (t.begin files m out).plan ∧
      (t.begin files m out).written ≤ taken.length+(t.begin files m out).runs := by
  rw [Tally.begin]
  cases hres : resumed files m out with
  | none => exact ⟨[], rfl, Nat.zero_le _⟩
  | some cp =>
    obtain ⟨taken, hplan, hwritten⟩ := h cp hres
    refine ⟨taken, ?_, hwritten⟩
    rw [← hplan, requestedChunks, startingCheckpoint, hres]
    rfl

theorem Tally.Fits.congr {t : Tally} {files' : Files} (h : t.Fits files m out)
    (hout : files' out = files out)
    (hckpt : files' (checkpointPathForOutput out) = files (checkpointPathForOutput out)) :
    t.Fits files' m out := by
  intro cp hcp
  apply h
  rw [resumed_eq_some] at hcp ⊢
  rwa [hout, hckpt] at hcp

/-- However often its runs are killed, and whatever its senders send, the number of chunk writes of a
transfer is at most that of the chunks it set out to take and one more for each run; and a run that
goes on asks for just the chunks of the plan behind those that it need not ask for. -/
theorem attempts_bounded (dir : Bytes) (m : FileManifest) (files : Files) (t : Tally)
    (h : Attempts dir m files t) :
    t.written ≤ t.plan.length+t.runs ∧ t.Fits files m (outputPathFor dir m) := by
  induction h with
  | start files =>
    refine ⟨Nat.zero_le _, ?_⟩
    intro cp hres
    refine ⟨[], ?_, Nat.zero_le _⟩
    rw [requestedChunks, startingCheckpoint, hres]
    rfl
  | @killed files t before env hs s ho hm k n ih =>
    obtain ⟨henc, hopen, hreceiver⟩ := receiver_of_received dir s ho m hm
    obtain ⟨taken, hplan, hwritten⟩ := ih.2.begin
    have hpoint := (receiverSession_killPoint hs dir henc.planned files _ hopen).always k n
    rw [← hreceiver] at hpoint
    obtain ⟨hle, hnext⟩ := hpoint.attempt
    refine ⟨?_, ?_⟩
    · simp only [Tally.run]
      rw [← hplan, List.length_append]
      omega
    · intro cp hcp
      obtain ⟨more, hmore, hfew⟩ := hnext cp hcp
      refine ⟨taken ++ more, ?_, ?_⟩
      · rw [List.append_assoc, hmore]
        exact hplan
      · simp only [Tally.run]
        rw [List.length_append]
        omega
  | @other files t before env s m' hm happart k n ih =>
    have halone := leavesAlone_of_disjoint dir m.filename m'.filename
      ((transferPaths_disjoint_iff dir _ _ happart.ne).mpr ⟨happart.left, happart.right⟩)
    have hpaths (q : Bytes) (hq : q ∈ (transferPaths dir m.filename).take 2) :=
      (halone env files s m' hm rfl q hq k n).2
    exact ⟨ih.1, ih.2.congr (hpaths _ List.mem_cons_self)
      (hpaths _ (List.mem_cons_of_mem _ List.mem_cons_self))⟩

/-- Killed behind the write of the first chunk, before it is saved, and again in the next run. -/
theorem attempts_bounded_small :
    ∃ files t, Attempts (ascii "in") smallManifest files t ∧ t.written = 2 ∧ t.runs = 2 ∧
      (resumed files smallManifest (outputPathFor (ascii "in") smallManifest)).isSome = true ∧
      t.written ≤ t.plan.length+t.runs ∧
      t.Fits files smallManifest (outputPathFor (ascii "in") smallManifest) := by
  have hfirst := (@Attempts.start (ascii "in") smallManifest emptyDirectory).killed
    Env.direct Env.direct_reliable.steady firstChunkOnly rfl firstChunkOnly_received 0 11
  have hsecond := hfirst.killed Env.direct Env.direct_reliable.steady firstChunkOnly rfl
    firstChunkOnly_received 0 11
  obtain ⟨hle, hfits⟩ := attempts_bounded _ _ _ _ hsecond
  refine ⟨_, _, hsecond, ?_, ?_, ?_, hle, hfits⟩
  · decide +kernel
  · decide +kernel
  · decide +kernel

end PacketBridge
