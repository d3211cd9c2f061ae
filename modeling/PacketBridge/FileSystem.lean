import PacketBridge.Foundations.Extent
import PacketBridge.Foundations.Prog
import Mathlib.Logic.Function.Basic

/-! The files a process works on through the C and C++ standard library. An output stream may keep
written bytes in its buffer until the next `seekp` or until it is closed. -/
namespace PacketBridge
open Foundations

abbrev Files := Bytes → Option Bytes

/-- An output stream; a closed one is not good. `pending` is to be written at `position`. -/
structure Stream where
  good : Bool := false
  position : ℕ := 0
  pending : Bytes := []

/-- `read` opens a file, reads all of it and closes it. The destructor of a stream is `close`. -/
inductive FileOp where
  | read (path : Bytes)
  | openTrunc (path : Bytes)
  | openInOut (path : Bytes)
  | seekp (path : Bytes) (offset : UInt64)
  | write (path : Bytes) (data : Bytes)
  | close (path : Bytes)
  | remove (path : Bytes)
  | rename (source target : Bytes)
  deriving DecidableEq

/-- Opening, removing and renaming answer whether they succeeded, a write whether its stream is
still good. -/
abbrev Answer : FileOp → Type
  | .read _ => Option Bytes
  | .seekp _ _ | .close _ => Unit
  | .openTrunc _ | .openInOut _ | .write _ _ | .remove _ | .rename _ _ => Bool

abbrev FileProg := Prog FileOp Answer

abbrev call (o : FileOp) : FileProg (Answer o) := @Prog.perform FileOp Answer o

/-- The files, the open streams of the process by path, the calls it has made, and the writes its
streams took: path, position and bytes. -/
structure World where
  files : Files
  streams : Bytes → Stream := fun _ => {}
  history : List FileOp := []
  writes : List (Bytes × ℕ × Bytes) := []

/-- How the system treats the calls, by their number in the run: `fault` makes one fail after it
has moved so many bytes, `kept` is how many bytes a write leaves in the buffer. -/
structure Env where
  fault : ℕ → FileOp → Option ℕ := fun _ _ => none
  kept : ℕ → FileOp → ℕ := fun _ _ => 0

def Env.Reliable (env : Env) : Prop := ∀ n o, env.fault n o = none

/-- No call fails and nothing stays in a buffer. -/
def Env.direct : Env := {}

theorem Env.direct_reliable : Env.direct.Reliable := fun _ _ => rfl

namespace World

def log (w : World) (o : FileOp) : World := { w with history := w.history ++ [o] }

def setFile (w : World) (p : Bytes) (c : Option Bytes) : World :=
  { w with files := Function.update w.files p c }

def setStream (w : World) (p : Bytes) (st : Stream) : World :=
  { w with streams := Function.update w.streams p st }

def drain (w : World) (p : Bytes) (n : ℕ) : World :=
  let st := w.streams p
  let moved := st.pending.take n
  (w.setFile p ((w.files p).map fun c => writeAt c st.position moved)).setStream p
    { st with position := st.position+moved.length, pending := st.pending.drop n }

def flush (w : World) (p : Bytes) : World := w.drain p (w.streams p).pending.length

def buffer (w : World) (p data : Bytes) : World :=
  let st := w.streams p
  { w.setStream p { st with pending := st.pending ++ data } with
    writes := w.writes ++ [(p, st.position+st.pending.length, data)] }

/-- A flush that fails after `k` bytes: the rest of the buffer is lost. -/
def spoil (w : World) (p : Bytes) (k : ℕ) : World := (w.drain p k).setStream p {}

end World

/-- A seek target is a signed 64-bit number. -/
def maxOffset : ℕ := 2^63

/-- What a call does, when it fails as `fault` says and leaves `kept` bytes in the buffer. -/
def FileOp.effect (fault : Option ℕ) (kept : ℕ) : (o : FileOp) → World → Answer o × World
  | .read p, w => (if fault = none then w.files p else none, w)
  | .openTrunc p, w =>
    if fault = none then (true, (w.setFile p (some [])).setStream p { good := true })
    else (false, w.setStream p {})
  | .openInOut p, w =>
    if fault = none ∧ (w.files p).isSome then (true, w.setStream p { good := true })
    else (false, w.setStream p {})
  | .seekp p offset, w =>
    if (w.streams p).good = false then ((), w)
    else match fault with
      | some k => ((), w.spoil p k)
      | none =>
        if offset.toNat < maxOffset then
          ((), (w.flush p).setStream p { good := true, position := offset.toNat })
        else ((), (w.flush p).setStream p {})
  | .write p data, w =>
    if (w.streams p).good = false then (false, w)
    else match fault with
      | some k => (false, (w.buffer p data).spoil p k)
      | none => (true, (w.buffer p data).drain p (((w.streams p).pending ++ data).length-kept))
  | .close p, w =>
    match fault with
    | some k => ((), w.spoil p k)
    | none => ((), (w.flush p).setStream p {})
  | .remove p, w =>
    if fault = none ∧ (w.files p).isSome then (true, w.setFile p none) else (false, w)
  | .rename p q, w =>
    if fault = none ∧ (w.files p).isSome then (true, (w.setFile p none).setFile q (w.files p))
    else (false, w)

def Env.exec (env : Env) : Handler FileOp Answer World := fun o w =>
  o.effect (env.fault w.history.length o) (env.kept w.history.length o) (w.log o)

/-- What a call has done when the process is killed in the middle of it: `k` bytes of the buffer
have reached the file. -/
def cutAfter (k : ℕ) : FileOp → World → World
  | .seekp p _, w => w.drain p k
  | .close p, w => w.drain p k
  | .write p data, w => if (w.streams p).good = false then w else (w.buffer p data).drain p k
  | _, w => w

/-- The process starts with the files of a directory and no stream open. -/
def boot (files : Files) : World := { files }

namespace World

/-- The file as it will be when its stream is closed. -/
def view (w : World) (p : Bytes) : Option Bytes :=
  (w.files p).map fun c => writeAt c (w.streams p).position (w.streams p).pending

def writesTo (w : World) (p : Bytes) : List (ℕ × Bytes) :=
  (w.writes.filter fun x => x.1 = p).map fun x => x.2

variable (w : World) (p q : Bytes)

@[simp] theorem log_files (o : FileOp) : (w.log o).files = w.files := rfl
@[simp] theorem log_streams (o : FileOp) : (w.log o).streams = w.streams := rfl
@[simp] theorem log_history (o : FileOp) : (w.log o).history = w.history ++ [o] := rfl
@[simp] theorem setFile_streams (c : Option Bytes) : (w.setFile p c).streams = w.streams := rfl
@[simp] theorem setFile_history (c : Option Bytes) : (w.setFile p c).history = w.history := rfl
@[simp] theorem setStream_files (st : Stream) : (w.setStream p st).files = w.files := rfl
@[simp] theorem setStream_history (st : Stream) : (w.setStream p st).history = w.history := rfl
@[simp] theorem buffer_files (data : Bytes) : (w.buffer p data).files = w.files := rfl
@[simp] theorem buffer_history (data : Bytes) : (w.buffer p data).history = w.history := rfl
@[simp] theorem drain_history (n : ℕ) : (w.drain p n).history = w.history := rfl
@[simp] theorem flush_history : (w.flush p).history = w.history := rfl
@[simp] theorem spoil_history (n : ℕ) : (w.spoil p n).history = w.history := rfl
@[simp] theorem log_writes (o : FileOp) : (w.log o).writes = w.writes := rfl
@[simp] theorem setFile_writes (c : Option Bytes) : (w.setFile p c).writes = w.writes := rfl
@[simp] theorem setStream_writes (st : Stream) : (w.setStream p st).writes = w.writes := rfl
@[simp] theorem drain_writes (n : ℕ) : (w.drain p n).writes = w.writes := rfl
@[simp] theorem flush_writes : (w.flush p).writes = w.writes := rfl
@[simp] theorem buffer_writes (data : Bytes) : (w.buffer p data).writes = w.writes ++
    [(p, (w.streams p).position+(w.streams p).pending.length, data)] := rfl
@[simp] theorem boot_writes (f : Files) : (boot f).writes = [] := rfl
@[simp] theorem boot_files (f : Files) : (boot f).files = f := rfl
@[simp] theorem boot_streams (f : Files) : (boot f).streams = fun _ => {} := rfl
@[simp] theorem boot_history (f : Files) : (boot f).history = [] := rfl

@[simp] theorem setFile_files_self (c : Option Bytes) : (w.setFile p c).files p = c := by
  simp only [setFile, Function.update_self]

theorem setFile_files_of_ne (c : Option Bytes) (h : q ≠ p) : (w.setFile p c).files q = w.files q := by
  simp only [setFile, Function.update_of_ne h]

@[simp] theorem setStream_streams_self (st : Stream) : (w.setStream p st).streams p = st := by
  simp only [setStream, Function.update_self]

theorem setStream_streams_of_ne (st : Stream) (h : q ≠ p) :
    (w.setStream p st).streams q = w.streams q := by
  simp only [setStream, Function.update_of_ne h]

@[simp] theorem buffer_streams_self (data : Bytes) : (w.buffer p data).streams p =
    { w.streams p with pending := (w.streams p).pending ++ data } := by
  simp only [buffer, setStream_streams_self]

theorem buffer_streams_of_ne (data : Bytes) (h : q ≠ p) :
    (w.buffer p data).streams q = w.streams q := by
  simp only [buffer, setStream_streams_of_ne w p q _ h]

@[simp] theorem drain_files_self (n : ℕ) : (w.drain p n).files p =
    (w.files p).map fun c => writeAt c (w.streams p).position ((w.streams p).pending.take n) := by
  rw [drain, setStream_files, setFile_files_self]

theorem drain_files_of_ne (n : ℕ) (h : q ≠ p) : (w.drain p n).files q = w.files q := by
  rw [drain, setStream_files, setFile_files_of_ne w p q _ h]

@[simp] theorem drain_streams_self (n : ℕ) : (w.drain p n).streams p =
    { w.streams p with
      position := (w.streams p).position+((w.streams p).pending.take n).length
      pending := (w.streams p).pending.drop n } := by
  rw [drain, setStream_streams_self]

theorem drain_streams_of_ne (n : ℕ) (h : q ≠ p) : (w.drain p n).streams q = w.streams q := by
  rw [drain, setStream_streams_of_ne _ p q _ h, setFile_streams]

/-- Moving bytes out of the buffer does not change what the file will be. -/
@[simp] theorem drain_view (n : ℕ) : (w.drain p n).view q = w.view q := by
  by_cases h : q = p
  · subst h
    rw [view, view, drain_files_self, drain_streams_self, Option.map_map]
    congr 1
    funext c
    simp only [Function.comp_apply]
    rw [writeAt_writeAt, List.take_append_drop]
  · rw [view, view, drain_files_of_ne w p q n h, drain_streams_of_ne w p q n h]

@[simp] theorem flush_files_self : (w.flush p).files p = w.view p := by
  rw [flush, drain_files_self, List.take_length, view]

theorem flush_files_of_ne (h : q ≠ p) : (w.flush p).files q = w.files q :=
  drain_files_of_ne w p q _ h

theorem flush_streams_of_ne (h : q ≠ p) : (w.flush p).streams q = w.streams q :=
  drain_streams_of_ne w p q _ h

theorem view_of_pending_nil (h : (w.streams p).pending = []) : w.view p = w.files p := by
  rw [view, h]
  simp only [writeAt_nil, Option.map_id']

theorem view_eq_of_eq (w' : World) (hf : w'.files p = w.files p)
    (hs : w'.streams p = w.streams p) : w'.view p = w.view p := by
  rw [view, view, hf, hs]

end World

/-- The paths whose file or stream a call may change. -/
def FileOp.touches : FileOp → List Bytes
  | .read _ => []
  | .openTrunc p | .openInOut p | .seekp p _ | .write p _ | .close p | .remove p => [p]
  | .rename p q => [p, q]

theorem effect_history (fault : Option ℕ) (kept : ℕ) (o : FileOp) (w : World) :
    (o.effect fault kept w).2.history = w.history := by
  cases o <;> simp only [FileOp.effect] <;> repeat' split
  all_goals rfl

@[simp] theorem exec_history (env : Env) (o : FileOp) (w : World) :
    (env.exec o w).2.history = w.history ++ [o] := by
  rw [Env.exec, effect_history, World.log_history]

theorem length_exec_history (env : Env) (o : FileOp) (w : World) :
    (env.exec o w).2.history.length = w.history.length+1 := by
  rw [exec_history, List.length_append, List.length_singleton]

/-- Nothing about a path differs in two states: its file, its stream and the writes it took. -/
structure World.Same (q : Bytes) (w w' : World) : Prop where
  files : w'.files q = w.files q
  streams : w'.streams q = w.streams q
  writesTo : w'.writesTo q = w.writesTo q

theorem World.Same.refl {q : Bytes} {w : World} : World.Same q w w := ⟨rfl, rfl, rfl⟩

theorem World.Same.trans {q : Bytes} {w w' w'' : World} (h : World.Same q w w')
    (h' : World.Same q w' w'') : World.Same q w w'' :=
  ⟨h'.files.trans h.files, h'.streams.trans h.streams, h'.writesTo.trans h.writesTo⟩

theorem World.Same.view {q : Bytes} {w w' : World} (h : World.Same q w w') :
    w'.view q = w.view q := World.view_eq_of_eq w q w' h.files h.streams

theorem World.buffer_writesTo_of_ne (w : World) (p q data : Bytes) (h : q ≠ p) :
    (w.buffer p data).writesTo q = w.writesTo q := by
  simp only [World.writesTo, World.buffer_writes, List.filter_append, List.filter_cons,
    decide_eq_true_eq, Ne.symm h, ↓reduceIte, List.filter_nil, List.append_nil]

theorem effect_same (fault : Option ℕ) (kept : ℕ) (o : FileOp) (w : World) (q : Bytes)
    (h : q ∉ o.touches) : World.Same q w (o.effect fault kept w).2 := by
  cases o with
  | read p => exact World.Same.refl
  | rename p p' =>
    simp only [FileOp.touches, List.mem_cons, List.not_mem_nil, or_false, not_or] at h
    simp only [FileOp.effect]
    split
    · exact ⟨by rw [World.setFile_files_of_ne _ _ _ _ h.2, World.setFile_files_of_ne _ _ _ _ h.1],
        rfl, rfl⟩
    · exact World.Same.refl
  | write p data =>
    simp only [FileOp.touches, List.mem_singleton] at h
    have hw := World.buffer_writesTo_of_ne w p q data h
    simp only [FileOp.effect, World.spoil]
    repeat' split
    · exact World.Same.refl
    · exact ⟨by rw [World.setStream_files, World.drain_files_of_ne _ _ _ _ h, World.buffer_files],
        by rw [World.setStream_streams_of_ne _ _ _ _ h, World.drain_streams_of_ne _ _ _ _ h,
          World.buffer_streams_of_ne _ _ _ _ h], hw⟩
    · exact ⟨by rw [World.drain_files_of_ne _ _ _ _ h, World.buffer_files],
        by rw [World.drain_streams_of_ne _ _ _ _ h, World.buffer_streams_of_ne _ _ _ _ h], hw⟩
  | _ p =>
    simp only [FileOp.touches, List.mem_singleton] at h
    simp only [FileOp.effect, World.spoil]
    repeat' split
    all_goals
      refine ⟨?_, ?_, rfl⟩
      all_goals simp only [World.setFile_files_of_ne _ _ _ _ h, World.setStream_files,
        World.setStream_streams_of_ne _ _ _ _ h, World.setFile_streams,
        World.drain_files_of_ne _ _ _ _ h, World.drain_streams_of_ne _ _ _ _ h,
        World.flush_files_of_ne _ _ _ h, World.flush_streams_of_ne _ _ _ h]

theorem exec_same (env : Env) (o : FileOp) (w : World) (q : Bytes) (h : q ∉ o.touches) :
    World.Same q w (env.exec o w).2 :=
  let hs := effect_same _ _ o (w.log o) q h
  ⟨hs.files, hs.streams, hs.writesTo⟩

theorem cutAfter_same (k : ℕ) (o : FileOp) (w : World) (q : Bytes) (h : q ∉ o.touches) :
    World.Same q w (cutAfter k o w) := by
  cases o with
  | write p data =>
    simp only [FileOp.touches, List.mem_singleton] at h
    simp only [cutAfter]
    split
    · exact World.Same.refl
    · exact ⟨by rw [World.drain_files_of_ne _ _ _ _ h, World.buffer_files],
        by rw [World.drain_streams_of_ne _ _ _ _ h, World.buffer_streams_of_ne _ _ _ _ h],
        World.buffer_writesTo_of_ne w p q data h⟩
  | seekp p offset | close p =>
    simp only [FileOp.touches, List.mem_singleton] at h
    exact ⟨World.drain_files_of_ne _ _ _ _ h, World.drain_streams_of_ne _ _ _ _ h, rfl⟩
  | _ => exact World.Same.refl

/-- The calls whose failure the program is told of and which do nothing then. -/
def FileOp.mayFail : FileOp → Bool
  | .openTrunc _ | .openInOut _ | .rename _ _ => true
  | _ => false

/-- Opening and renaming may fail; every other call works. -/
def Env.Steady (env : Env) : Prop := ∀ n o, FileOp.mayFail o = false → env.fault n o = none

theorem Env.Reliable.steady {env : Env} (h : env.Reliable) : env.Steady := fun n o _ => h n o

section Calls

variable {env : Env} {w : World} {p : Bytes}

theorem exec_read (hf : env.fault w.history.length (.read p) = none) :
    env.exec (.read p) w = (w.files p, w.log (.read p)) := by
  simp only [Env.exec, FileOp.effect, hf, ↓reduceIte, World.log_files]

theorem exec_openTrunc (hf : env.fault w.history.length (.openTrunc p) = none) :
    env.exec (.openTrunc p) w =
      (true, ((w.log (.openTrunc p)).setFile p (some [])).setStream p { good := true }) := by
  simp only [Env.exec, FileOp.effect, hf, ↓reduceIte]

/-- A file that has been opened so is empty, and so is its stream. -/
theorem exec_openTrunc_new (hf : env.fault w.history.length (.openTrunc p) = none) :
    (env.exec (.openTrunc p) w).1 = true ∧ (env.exec (.openTrunc p) w).2.files p = some [] ∧
      (env.exec (.openTrunc p) w).2.streams p = { good := true } := by
  rw [exec_openTrunc hf]
  exact ⟨rfl, World.setFile_files_self _ _ _, World.setStream_streams_self _ _ _⟩

theorem exec_openTrunc_fault (hf : env.fault w.history.length (.openTrunc p) ≠ none) :
    env.exec (.openTrunc p) w = (false, (w.log (.openTrunc p)).setStream p {}) := by
  simp only [Env.exec, FileOp.effect, hf, ↓reduceIte]

theorem exec_openInOut (hf : env.fault w.history.length (.openInOut p) = none)
    (he : (w.files p).isSome = true) : env.exec (.openInOut p) w =
      (true, (w.log (.openInOut p)).setStream p { good := true }) := by
  simp only [Env.exec, FileOp.effect, hf, World.log_files, he, and_self, ↓reduceIte]

theorem exec_seekp {offset : UInt64}
    (hf : env.fault w.history.length (.seekp p offset) = none)
    (hg : (w.streams p).good = true) (ho : offset.toNat < maxOffset) :
    env.exec (.seekp p offset) w = ((), ((w.log (.seekp p offset)).flush p).setStream p
      { good := true, position := offset.toNat }) := by
  simp only [Env.exec, FileOp.effect, hf, World.log_streams, hg, Bool.true_eq_false, ho,
    ↓reduceIte]

theorem exec_seekp_far {offset : UInt64}
    (hf : env.fault w.history.length (.seekp p offset) = none)
    (hg : (w.streams p).good = true) (ho : ¬ offset.toNat < maxOffset) :
    env.exec (.seekp p offset) w =
      ((), ((w.log (.seekp p offset)).flush p).setStream p {}) := by
  simp only [Env.exec, FileOp.effect, hf, World.log_streams, hg, Bool.true_eq_false, ho,
    ↓reduceIte]

theorem exec_seekp_bad {offset : UInt64} (hg : (w.streams p).good = false) :
    env.exec (.seekp p offset) w = ((), w.log (.seekp p offset)) := by
  simp only [Env.exec, FileOp.effect, World.log_streams, hg, ↓reduceIte]

theorem exec_write {data : Bytes} (hf : env.fault w.history.length (.write p data) = none)
    (hg : (w.streams p).good = true) : env.exec (.write p data) w =
      (true, ((w.log (.write p data)).buffer p data).drain p
        (((w.streams p).pending ++ data).length-env.kept w.history.length (.write p data))) := by
  simp only [Env.exec, FileOp.effect, hf, World.log_streams, hg, Bool.true_eq_false, ↓reduceIte]

theorem exec_write_view {data : Bytes} (hf : env.fault w.history.length (.write p data) = none)
    (hg : (w.streams p).good = true) : (env.exec (.write p data) w).2.view p =
      (w.files p).map fun c =>
        writeAt c (w.streams p).position ((w.streams p).pending ++ data) := by
  rw [exec_write hf hg, World.drain_view, World.view, World.buffer_files,
    World.buffer_streams_self, World.log_files, World.log_streams]

/-- All the bytes written to a new file are in it or in the buffer of its stream. -/
theorem exec_write_view_new {data : Bytes}
    (hf : env.fault w.history.length (.write p data) = none) (hempty : w.files p = some [])
    (hstream : w.streams p = { good := true }) :
    (env.exec (.write p data) w).2.view p = some data := by
  rw [exec_write_view hf (by rw [hstream]), hempty, hstream, Option.map_some, List.nil_append,
    writeAt_empty]

theorem exec_write_bad {data : Bytes} (hg : (w.streams p).good = false) :
    env.exec (.write p data) w = (false, w.log (.write p data)) := by
  simp only [Env.exec, FileOp.effect, World.log_streams, hg, ↓reduceIte]

theorem exec_close (hf : env.fault w.history.length (.close p) = none) :
    env.exec (.close p) w = ((), ((w.log (.close p)).flush p).setStream p {}) := by
  simp only [Env.exec, FileOp.effect, hf]

theorem exec_close_files (hf : env.fault w.history.length (.close p) = none) :
    (env.exec (.close p) w).2.files p = w.view p := by
  rw [exec_close hf, World.setStream_files, World.flush_files_self]
  rfl

theorem exec_remove (hf : env.fault w.history.length (.remove p) = none) :
    (env.exec (.remove p) w).2 = (w.log (.remove p)).setFile p none := by
  simp only [Env.exec, FileOp.effect, hf, true_and, World.log_files]
  by_cases he : (w.files p).isSome = true
  · rw [if_pos he]
  · rw [if_neg he, World.setFile, World.log_files]
    rw [Option.not_isSome_iff_eq_none] at he
    rw [← he, Function.update_eq_self]
    rfl

theorem exec_remove_files (hf : env.fault w.history.length (.remove p) = none) :
    (env.exec (.remove p) w).2.files p = none ∧
      ∀ q, q ≠ p → (env.exec (.remove p) w).2.files q = w.files q := by
  rw [exec_remove hf]
  refine ⟨World.setFile_files_self _ _ _, ?_⟩
  intro q hq
  rw [World.setFile_files_of_ne _ _ _ _ hq, World.log_files]

theorem exec_rename {q : Bytes} {c : Bytes}
    (hf : env.fault w.history.length (.rename p q) = none) (he : w.files p = some c) :
    env.exec (.rename p q) w =
      (true, ((w.log (.rename p q)).setFile p none).setFile q (some c)) := by
  simp only [Env.exec, FileOp.effect, hf, World.log_files, he, Option.isSome_some, and_self,
    ↓reduceIte]

theorem exec_rename_fault {q : Bytes}
    (hf : env.fault w.history.length (.rename p q) ≠ none) :
    env.exec (.rename p q) w = (false, w.log (.rename p q)) := by
  simp only [Env.exec, FileOp.effect, hf, false_and, ↓reduceIte]

end Calls

end PacketBridge
