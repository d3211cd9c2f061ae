import PacketBridge.ByteCount
import PacketBridge.Foundations.Sharing
import PacketBridge.KilledRuns

namespace PacketBridge
open Foundations

def filesIn : StoreIn Bytes (Option Bytes) World where
  get := World.files
  put := fun files w => { w with files }
  get_put := fun _ _ => rfl
  put_get := fun _ => rfl
  put_put := fun _ _ _ => rfl

structure Owns (ps : List Bytes) (o : FileOp) : Prop where
  touches : ∀ q ∈ o.touches, q ∈ ps
  looks : ∀ q, o = .read q → q ∈ ps

abbrev Agree (ps : List Bytes) (w w' : World) : Prop := filesIn.Agree (fun q => q ∈ ps) w w'

section Agree

variable {ps : List Bytes} {w w' : World} {p : Bytes}

theorem agree_iff : Agree ps w w' ↔ (∀ q ∈ ps, w'.files q = w.files q) ∧
    w'.streams = w.streams ∧ w'.history = w.history ∧ w'.writes = w.writes := by
  constructor
  · intro h
    have hrest : ({ w' with files := w.files } : World) = w := h.rest
    refine ⟨h.store, ?_, ?_, ?_⟩
    · change ({ w' with files := w.files } : World).streams = w.streams
      rw [hrest]
    · change ({ w' with files := w.files } : World).history = w.history
      rw [hrest]
    · change ({ w' with files := w.files } : World).writes = w.writes
      rw [hrest]
  · rintro ⟨hfiles, hstreams, hhistory, hwrites⟩
    refine ⟨hfiles, ?_⟩
    change ({ w' with files := w.files } : World) = w
    rw [hstreams, hhistory, hwrites]

theorem Agree.log (h : Agree ps w w') (o : FileOp) : Agree ps (w.log o) (w'.log o) := by
  obtain ⟨hfiles, hstreams, hhistory, hwrites⟩ := agree_iff.mp h
  exact agree_iff.mpr ⟨hfiles, hstreams, by rw [World.log_history, World.log_history, hhistory],
    hwrites⟩

theorem Agree.setStream (h : Agree ps w w') (p : Bytes) (st : Stream) :
    Agree ps (w.setStream p st) (w'.setStream p st) := by
  obtain ⟨hfiles, hstreams, hhistory, hwrites⟩ := agree_iff.mp h
  refine agree_iff.mpr ⟨hfiles, ?_, hhistory, hwrites⟩
  rw [World.setStream, World.setStream, hstreams]

theorem Agree.setFile (h : Agree ps w w') (p : Bytes) (c : Option Bytes) :
    Agree ps (w.setFile p c) (w'.setFile p c) := by
  obtain ⟨hfiles, hrest⟩ := agree_iff.mp h
  refine agree_iff.mpr ⟨?_, hrest⟩
  intro q hq
  change Function.update _ _ _ _ = Function.update _ _ _ _
  by_cases hp : q = p
  · rw [hp, Function.update_self, Function.update_self]
  · rw [Function.update_of_ne hp, Function.update_of_ne hp, hfiles q hq]

theorem Agree.buffer (h : Agree ps w w') (p data : Bytes) :
    Agree ps (w.buffer p data) (w'.buffer p data) := by
  obtain ⟨hfiles, hstreams, hhistory, hwrites⟩ := agree_iff.mp h
  refine agree_iff.mpr ⟨hfiles, ?_, hhistory, ?_⟩
  · simp only [World.buffer, World.setStream, hstreams]
  · simp only [World.buffer, hstreams, hwrites]

theorem Agree.drain (h : Agree ps w w') (hp : p ∈ ps) (n : ℕ) :
    Agree ps (w.drain p n) (w'.drain p n) := by
  obtain ⟨hfiles, hstreams, -⟩ := agree_iff.mp h
  rw [World.drain, World.drain, hstreams, hfiles p hp]
  exact (h.setFile p _).setStream p _

theorem Agree.flush (h : Agree ps w w') (hp : p ∈ ps) : Agree ps (w.flush p) (w'.flush p) := by
  obtain ⟨-, hstreams, -⟩ := agree_iff.mp h
  rw [World.flush, World.flush, hstreams]
  exact h.drain hp _

theorem Agree.spoil (h : Agree ps w w') (hp : p ∈ ps) (k : ℕ) :
    Agree ps (w.spoil p k) (w'.spoil p k) := (h.drain hp k).setStream p {}

/-- What a call does depends on the files of its paths alone. -/
theorem effect_agree (fault : Option ℕ) (kept : ℕ) {o : FileOp} (ho : Owns ps o)
    (h : Agree ps w w') : (o.effect fault kept w').1 = (o.effect fault kept w).1 ∧
      Agree ps (o.effect fault kept w).2 (o.effect fault kept w').2 := by
  obtain ⟨hfiles, hstreams, -⟩ := agree_iff.mp h
  cases o with
  | read p =>
    simp only [FileOp.effect, hfiles p (ho.looks p rfl)]
    exact ⟨trivial, h⟩
  | rename p q =>
    have hp : p ∈ ps := ho.touches p List.mem_cons_self
    simp only [FileOp.effect, hfiles p hp]
    split
    · exact ⟨rfl, (h.setFile p none).setFile q _⟩
    · exact ⟨rfl, h⟩
  | write p data =>
    have hp : p ∈ ps := ho.touches p List.mem_cons_self
    simp only [FileOp.effect, hstreams]
    repeat' split
    · exact ⟨rfl, h⟩
    · exact ⟨rfl, (h.buffer p data).spoil hp _⟩
    · exact ⟨rfl, (h.buffer p data).drain hp _⟩
  | seekp p offset =>
    have hp : p ∈ ps := ho.touches p List.mem_cons_self
    refine ⟨rfl, ?_⟩
    simp only [FileOp.effect, hstreams]
    repeat' split
    · exact h
    · exact h.spoil hp _
    · exact (h.flush hp).setStream p _
    · exact (h.flush hp).setStream p _
  | close p =>
    have hp : p ∈ ps := ho.touches p List.mem_cons_self
    refine ⟨rfl, ?_⟩
    simp only [FileOp.effect]
    split
    · exact h.spoil hp _
    · exact (h.flush hp).setStream p _
  | openTrunc p =>
    simp only [FileOp.effect]
    split
    · exact ⟨rfl, (h.setFile p _).setStream p _⟩
    · exact ⟨rfl, h.setStream p _⟩
  | openInOut p =>
    have hp : p ∈ ps := ho.touches p List.mem_cons_self
    simp only [FileOp.effect, hfiles p hp]
    split
    · exact ⟨rfl, h.setStream p _⟩
    · exact ⟨rfl, h.setStream p _⟩
  | remove p =>
    have hp : p ∈ ps := ho.touches p List.mem_cons_self
    simp only [FileOp.effect, hfiles p hp]
    split
    · exact ⟨rfl, h.setFile p _⟩
    · exact ⟨rfl, h⟩

theorem exec_agree (env : Env) {o : FileOp} (ho : Owns ps o) (h : Agree ps w w') :
    (env.exec o w').1 = (env.exec o w).1 ∧ Agree ps (env.exec o w).2 (env.exec o w').2 := by
  obtain ⟨-, -, hhistory, -⟩ := agree_iff.mp h
  rw [Env.exec, Env.exec, hhistory]
  exact effect_agree _ _ ho (h.log o)

theorem cutAfter_agree (k : ℕ) {o : FileOp} (ho : Owns ps o) (h : Agree ps w w') :
    Agree ps (cutAfter k o w) (cutAfter k o w') := by
  obtain ⟨-, hstreams, -⟩ := agree_iff.mp h
  cases o with
  | write p data =>
    simp only [cutAfter, hstreams]
    split
    · exact h
    · exact (h.buffer p data).drain (ho.touches p List.mem_cons_self) k
  | seekp p offset | close p => exact h.drain (ho.touches p List.mem_cons_self) k
  | _ => exact h

theorem Owns.isLocal (env : Env) {o : FileOp} (ho : Owns ps o) :
    filesIn.Local env.exec cutAfter (fun q => q ∈ ps) o where
  answer := fun _ _ h => (exec_agree env ho h).1
  agree := fun _ _ h => (exec_agree env ho h).2
  cutAgree := fun k _ _ h => cutAfter_agree k ho h
  frame := fun w q hq => (exec_same env o w q fun hin => hq (ho.touches q hin)).files
  cutFrame := fun k w q hq => (cutAfter_same k o w q fun hin => hq (ho.touches q hin)).files

end Agree

abbrev Looks (ps : List Bytes) {α : Type} (p : FileProg α) : Prop :=
  Prog.Calls (fun o => ∀ q, o = FileOp.read q → q ∈ ps) p

section Looks

variable {ps : List Bytes} {out ckpt : Bytes}

/-- The calls of a save read nothing. -/
theorem admitsSave_looks (ps : List Bytes) (path : Bytes) :
    AdmitsSave (fun o => ∀ q, o = FileOp.read q → q ∈ ps) path := by
  constructor
  all_goals simp only [reduceCtorEq, false_implies, implies_true]

theorem admitsOutput_looks (ps : List Bytes) (path : Bytes) :
    AdmitsOutput (fun o => ∀ q, o = FileOp.read q → q ∈ ps) path := by
  constructor
  all_goals simp only [reduceCtorEq, false_implies, implies_true]

theorem looks_read {p : Bytes} (hp : p ∈ ps) : Looks ps (call (.read p)) := by
  apply calls_call
  rintro q ⟨⟩
  exact hp

theorem looks_fileExists {p : Bytes} (hp : p ∈ ps) : Looks ps (fileExists p) :=
  (looks_read hp).bind fun _ => Prog.calls_pure _

theorem looks_loadedCheckpoint (hout : out ∈ ps) (hckpt : ckpt ∈ ps) (m : FileManifest) :
    Looks ps (loadedCheckpoint out ckpt m) := by
  apply (looks_fileExists hout).bind
  intro output
  split
  · apply Prog.Calls.bind _ fun _ => Prog.calls_pure _
    exact (looks_read hckpt).bind fun _ => Prog.calls_pure _
  · exact Prog.calls_pure _

theorem looks_removeCheckpoint (hckpt : ckpt ∈ ps) : Looks ps (removeCheckpoint ckpt) := by
  apply (calls_call (admitsSave_looks ps ckpt).remove).bind
  intro removed
  split
  · exact Prog.calls_pure _
  · exact (looks_fileExists hckpt).bind fun _ => Prog.calls_pure _

theorem looks_verifyOutput (hout : out ∈ ps) (hckpt : ckpt ∈ ps) (m : FileManifest)
    (s : TcpSocket) : Looks ps (verifyOutput s out ckpt m) := by
  unfold verifyOutput
  split
  · exact Prog.calls_pure _
  · split
    · exact Prog.calls_pure _
    · apply (looks_read hout).bind
      intro output
      split
      · exact Prog.calls_pure _
      · split
        · exact (looks_removeCheckpoint hckpt).bind fun _ => Prog.calls_pure _
        · exact Prog.calls_pure _

theorem looks_receiveFileChunks (hout : out ∈ ps) (m : FileManifest) (idxs : List UInt64)
    (cp : TransferCheckpoint) (t : ProgressTracker) (s : TcpSocket) (fresh : Bool) :
    Looks ps (receiveFileChunks s out ckpt m idxs cp t fresh) := by
  have hadmits := admitsOutput_looks ps out
  have hprepare : Looks ps (prepareOutputFile out fresh) := by
    cases fresh with
    | true =>
      have htrunc : ∀ q, FileOp.openTrunc out = .read q → q ∈ ps := by
        simp only [reduceCtorEq, false_implies, implies_true]
      apply (calls_call htrunc).bind
      intro create
      exact (calls_call hadmits.close).bind fun _ => Prog.calls_pure _
    | false => exact looks_fileExists hout
  apply hprepare.bind
  intro prepared
  split
  · apply (calls_call hadmits.openInOut).bind
    intro opened
    split
    · apply (calls_receiveLoop hadmits (admitsSave_looks ps ckpt) m idxs cp t s).bind
      intro result
      exact (calls_call hadmits.close).bind fun _ => Prog.calls_pure _
    · exact Prog.calls_pure _
  · exact Prog.calls_pure _

end Looks

/-- A session reads its output and its checkpoint only. -/
theorem looks_receiverSession (dir : Bytes) (m : FileManifest) (s : TcpSocket) :
    Looks (transferPaths dir m.filename) (receiverSession dir m s) := by
  have hout : outputPathFor dir m ∈ transferPaths dir m.filename := List.mem_cons_self
  have hckpt : checkpointPathForOutput (outputPathFor dir m) ∈ transferPaths dir m.filename :=
    List.mem_cons_of_mem _ List.mem_cons_self
  rw [receiverSession_eq]
  apply (looks_loadedCheckpoint hout hckpt m).bind
  intro loaded
  simp only [continueSession]
  split
  · apply (calls_saveCheckpoint (admitsSave_looks _ _) _).bind
    intro saved
    split
    · apply (looks_receiveFileChunks hout m _ _ _ _ _).bind
      rintro ⟨failed, t, client⟩
      cases failed with
      | some exit => exact Prog.calls_pure _
      | none => exact looks_verifyOutput hout hckpt m client
    · exact Prog.calls_pure _
  · exact Prog.calls_pure _

/-- The receiver of a manifest keeps to the paths of its transfer. -/
theorem owns_receiver (dir : Bytes) (s : TcpSocket) (ho : s.isOpen = true) (m : FileManifest)
    (hm : (receiveFileManifest s).1 = some m) :
    Prog.Calls (Owns (transferPaths dir m.filename)) (receiver dir s) := by
  obtain ⟨-, -, hreceiver⟩ := receiver_of_received dir s ho m hm
  rw [hreceiver]
  exact (within_receiverSession dir m _).both (looks_receiverSession dir m _) fun _ => Owns.mk

def ownPaths (dir : Bytes) (s : TcpSocket) : List Bytes :=
  match (receiveFileManifest s).1 with
  | some m => transferPaths dir m.filename
  | none => []

theorem ownPaths_eq {s : TcpSocket} {m : FileManifest} (hm : (receiveFileManifest s).1 = some m)
    (dir : Bytes) : ownPaths dir s = transferPaths dir m.filename := by
  rw [ownPaths, hm]

theorem owns_ownPaths (dir : Bytes) (s : TcpSocket) (ho : s.isOpen = true) :
    Prog.Calls (Owns (ownPaths dir s)) (receiver dir s) := by
  cases hm : (receiveFileManifest s).1 with
  | some m =>
    rw [ownPaths_eq hm]
    exact owns_receiver dir s ho m hm
  | none =>
    generalize hb : receiveFileManifest s = received at hm
    obtain ⟨manifest, s1⟩ := received
    obtain rfl := hm
    rw [receiver, hb]
    exact Prog.calls_pure _

/-- Two connections whose manifests, if they bring any, name files that do not meet. -/
def ConnectionsApart (s s' : TcpSocket) : Prop :=
  ∀ m m', (receiveFileManifest s).1 = some m → (receiveFileManifest s').1 = some m' →
    NamesApart m.filename m'.filename

theorem ConnectionsApart.ownPaths {s s' : TcpSocket} (h : ConnectionsApart s s') (dir : Bytes) :
    ∀ q ∈ ownPaths dir s, q ∉ ownPaths dir s' := by
  intro q hq hq'
  cases hm : (receiveFileManifest s).1 with
  | none =>
    rw [PacketBridge.ownPaths, hm] at hq
    cases hq
  | some m =>
    cases hm' : (receiveFileManifest s').1 with
    | none =>
      rw [PacketBridge.ownPaths, hm'] at hq'
      cases hq'
    | some m' =>
      rw [ownPaths_eq hm] at hq
      rw [ownPaths_eq hm'] at hq'
      have happart := h m m' hm hm'
      exact (transferPaths_disjoint_iff dir m.filename m'.filename happart.ne).mpr
        ⟨happart.left, happart.right⟩ q hq hq'

def startedTogether {ι : Type} (dir : Bytes) (files : Files) (sockets : ι → TcpSocket) :
    Shared FileOp Answer ι (ReceiverExit × TcpSocket) Bytes (Option Bytes) World where
  store := files
  procs := fun i => (some (receiver dir (sockets i)), boot files)

section Together

variable {ι : Type} [DecidableEq ι] (dir : Bytes) (files : Files) (env : ι → Env)
  (sockets : ι → TcpSocket)

/-- What receivers started together can come to, in any order of their calls, and with some of them
killed. -/
abbrev TogetherRun (c : Shared FileOp Answer ι (ReceiverExit × TcpSocket) Bytes (Option Bytes)
    World) : Prop :=
  SharedRun filesIn (fun i => (env i).exec) cutAfter (startedTogether dir files sockets) c

theorem togetherRun_start :
    TogetherRun dir files env sockets (startedTogether dir files sockets) := SharedRun.start

/-- Receivers that run at once in one directory, for files whose paths do not meet, with any
senders, each on a system that may fail, behave as they would alone: one that ends has the same
result and leaves the same files, one that is killed leaves files that it could leave alone; and no
other path is touched. -/
theorem receivers_as_alone (hopen : ∀ i, (sockets i).isOpen = true)
    (happart : ∀ i j, i ≠ j → ConnectionsApart (sockets i) (sockets j))
    (c : Shared FileOp Answer ι (ReceiverExit × TcpSocket) Bytes (Option Bytes) World)
    (hrun : TogetherRun dir files env sockets c) :
    (∀ i, (∀ result t, c.procs i = (some (.ret result), t) →
        let run := Prog.run (env i).exec (receiver dir (sockets i)) (boot files)
        result = run.1 ∧ ∀ q ∈ ownPaths dir (sockets i), c.store q = run.2.files q) ∧
      ∀ t, c.procs i = (none, t) → ∃ k n, ∀ q ∈ ownPaths dir (sockets i), c.store q =
        (Prog.crash (env i).exec (cutAfter k) n (receiver dir (sockets i))
          (boot files)).files q) ∧
    ∀ q, (∀ i, q ∉ ownPaths dir (sockets i)) → c.store q = files q := by
  have howned : ∀ i j q, q ∈ ownPaths dir (sockets i) → q ∈ ownPaths dir (sockets j) → i = j := by
    intro i j q hi hj
    by_contra hne
    exact (happart i j hne).ownPaths dir q hi hj
  have hlocal (i : ι) : (receiver dir (sockets i)).Calls (filesIn.Local (env i).exec cutAfter
      fun q => q ∈ ownPaths dir (sockets i)) :=
    (owns_ownPaths dir (sockets i) (hopen i)).mono fun _ ho => ho.isLocal (env i)
  obtain ⟨hprocs, hrest⟩ := SharedRun.asAlone howned hlocal (fun _ => rfl) (fun _ => rfl) hrun
  refine ⟨?_, hrest⟩
  intro i
  have hi := hprocs i
  refine ⟨?_, ?_⟩
  · intro result t hended
    rw [hended] at hi
    exact AsAlone.ended hi
  · intro t hkilled
    rw [hkilled] at hi
    exact hi

theorem pair_of_ne {R : Bool → Bool → Prop} (h : R false true) (h' : R true false) :
    ∀ i j, i ≠ j → R i j
  | false, true, _ => h
  | true, false, _ => h'
  | false, false, hne | true, true, hne => absurd rfl hne

def twoPaths (i : Bool) : Bytes := if i then ascii "dir/a.txt" else ascii "b.txt"

def twoContents (i : Bool) : Bytes := if i then ascii "abc" else ascii "xy"

theorem twoManifests_apart : ∀ i j, i ≠ j →
    NamesApart (senderManifest (twoPaths i) (twoContents i)).filename
      (senderManifest (twoPaths j) (twoContents j)).filename := by
  apply pair_of_ne
  · exact ⟨by decide, by decide, by decide⟩
  · exact ⟨by decide, by decide, by decide⟩

theorem twoManifests_limit (i : Bool) :
    (senderManifest (twoPaths i) (twoContents i)).chunkCount.toNat ≤ 1000000 := by
  cases i <;> decide

/-- They are sent into an empty directory at once, and both receivers run to their end. -/
theorem two_transfers_exist :
    ∃ (a b : Bool → TcpSocket) (c : _),
      (∀ i, UncutRun Env.direct (ascii "in") emptyDirectory (twoPaths i) (twoContents i) (a i)
        (b i)) ∧
      TogetherRun (ascii "in") emptyDirectory (fun _ => Env.direct) b c ∧
      ∀ i, ∃ result t, c.procs i = (some (.ret result), t) := by
  have hc (i : Bool) : Sendable (twoContents i) := by
    cases i <;> decide
  have hname (i : Bool) :
      (senderManifest (twoPaths i) (twoContents i)).filename.length ≤ kMaxFilenameLength := by
    cases i <;> decide
  have huncut (i : Bool) : ∃ a b, UncutRun Env.direct (ascii "in") emptyDirectory (twoPaths i)
      (twoContents i) a b := by
    exact uncutRun_exists Env.direct_reliable (ascii "in") emptyDirectory (twoPaths i) (hc i)
      (hname i) (requestedChunks_le_limit (twoManifests_limit i))
  choose a b hu using huncut
  -- first the one receiver runs to its end, then the other
  obtain ⟨c, result, t, hrun, hend, hwaits⟩ := SharedRun.finish (i := true)
    (togetherRun_start (ascii "in") emptyDirectory (fun _ => Env.direct) b) rfl
  obtain ⟨c', result', t', hrun', hend', hkept⟩ := hrun.finish (hwaits false nofun)
  refine ⟨a, b, c', hu, hrun', ?_⟩
  rintro (_ | _)
  · exact ⟨result', t', hend'⟩
  · exact ⟨result, t, (hkept true nofun).trans hend⟩

theorem UncutRun.apart {e e' : Env} {into filePath content filePath' content' : Bytes}
    {found : Files} {a b a' b' : TcpSocket} (hu : UncutRun e into found filePath content a b)
    (hu' : UncutRun e' into found filePath' content' a' b')
    (h : NamesApart (senderManifest filePath content).filename
      (senderManifest filePath' content').filename) : ConnectionsApart b b' := by
  intro m m' hm hm'
  rw [hu.received] at hm
  rw [hu'.received] at hm'
  obtain rfl := Option.some.inj hm
  obtain rfl := Option.some.inj hm'
  exact h

theorem receivers_as_alone_two :
    ∃ (b : Bool → TcpSocket) (c : _),
      TogetherRun (ascii "in") emptyDirectory (fun _ => Env.direct) b c ∧
      ∀ i : Bool, ∃ result t, c.procs i = (some (.ret result), t) ∧ result.1.code = 0 ∧
        ∀ q ∈ ownPaths (ascii "in") (b i), c.store q =
          (Prog.run Env.direct.exec (receiver (ascii "in") (b i)) (boot emptyDirectory)).2.files q := by
  obtain ⟨a, b, c, hu, hrun, hends⟩ := two_transfers_exist
  have halone := (receivers_as_alone (ascii "in") emptyDirectory (fun _ => Env.direct) b
    (fun i => (hu i).openReceiver)
    (fun i j hij => (hu i).apart (hu j) (twoManifests_apart i j hij)) c hrun).1
  refine ⟨b, c, hrun, ?_⟩
  intro i
  obtain ⟨result, t, hend⟩ := hends i
  obtain ⟨hresult, hstore⟩ := (halone i).1 result t hend
  have hcode := ((hu i).completes (twoManifests_limit i) (Trusted.of_none rfl)).1
  exact ⟨result, t, hend, by rw [hresult]; exact hcode, hstore⟩

variable {dir files env sockets}

/-- Transfers into one directory at once, for files whose paths do not meet: each receiver that has
ended reports success and has left its sender's file and no checkpoint, whatever the others have
done and whichever of them have been killed. -/
theorem transfers_together (dir : Bytes) (files : Files) (env : ι → Env)
    (filePath content : ι → Bytes) (a b : ι → TcpSocket)
    (hlimit : ∀ i, (senderManifest (filePath i) (content i)).chunkCount.toNat ≤ 1000000)
    (hu : ∀ i, UncutRun (env i) dir files (filePath i) (content i) (a i) (b i))
    (htrust : ∀ i, Trusted files (senderManifest (filePath i) (content i))
      (outputPathFor dir (senderManifest (filePath i) (content i))) (content i))
    (happart : ∀ i j, i ≠ j → NamesApart (senderManifest (filePath i) (content i)).filename
      (senderManifest (filePath j) (content j)).filename)
    (c : Shared FileOp Answer ι (ReceiverExit × TcpSocket) Bytes (Option Bytes) World)
    (hrun : TogetherRun dir files env b c) (i : ι) (result : ReceiverExit × TcpSocket) (t : World)
    (hi : c.procs i = (some (.ret result), t)) :
    result.1.code = 0 ∧
      c.store (outputPathFor dir (senderManifest (filePath i) (content i))) = some (content i) ∧
      c.store (checkpointPathForOutput
        (outputPathFor dir (senderManifest (filePath i) (content i)))) = none := by
  have hconnections (i j : ι) (hij : i ≠ j) : ConnectionsApart (b i) (b j) :=
    (hu i).apart (hu j) (happart i j hij)
  obtain ⟨hcode, hout, hckpt⟩ := (hu i).completes (hlimit i) (htrust i)
  have halone := (receivers_as_alone dir files env b (fun i => (hu i).openReceiver) hconnections c
    hrun).1 i
  obtain ⟨rfl, hstore⟩ := halone.1 result t hi
  rw [ownPaths_eq (hu i).received] at hstore
  refine ⟨hcode, ?_, ?_⟩
  · exact (hstore _ List.mem_cons_self).trans hout
  · exact (hstore _ (List.mem_cons_of_mem _ List.mem_cons_self)).trans hckpt

theorem transfers_together_two :
    ∃ (b : Bool → TcpSocket) (c : _),
      TogetherRun (ascii "in") emptyDirectory (fun _ => Env.direct) b c ∧
      c.store (ascii "in/received_a.txt") = some (ascii "abc") ∧
      c.store (ascii "in/received_b.txt") = some (ascii "xy") := by
  obtain ⟨a, b, c, hu, hrun, hends⟩ := two_transfers_exist
  have htogether := transfers_together (ascii "in") emptyDirectory (fun _ => Env.direct) twoPaths
    twoContents a b twoManifests_limit hu (fun _ => Trusted.of_none rfl) twoManifests_apart c hrun
  obtain ⟨result, t, hend⟩ := hends true
  obtain ⟨result', t', hend'⟩ := hends false
  exact ⟨b, c, hrun, (htogether true result t hend).2.1, (htogether false result' t' hend').2.1⟩

end Together

end PacketBridge
