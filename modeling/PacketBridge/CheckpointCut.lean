import PacketBridge.CheckpointFile

/-! Checkpoint texts that were cut short: what a save leaves on a failing disk, and what the loader
makes of it. -/
namespace PacketBridge
open Foundations

/-- A system on which only writes to the temporary file of `path` and closing it may fail. -/
def Env.Torn (env : Env) (path : Bytes) : Prop :=
  ∀ n o, (∀ data, o ≠ .write (temporaryPath path) data) → o ≠ .close (temporaryPath path) →
    env.fault n o = none

theorem Env.Torn.calls {env : Env} {path : Bytes} (ht : env.Torn path) (n : ℕ) (o : FileOp)
    (ho : temporaryPath path ∉ o.touches) : env.fault n o = none := by
  apply ht
  · rintro data rfl
    exact ho List.mem_cons_self
  · rintro rfl
    exact ho List.mem_cons_self

/-- Whatever part of the buffer reaches the file, the file is then a prefix of the text. -/
def Draining (text p : Bytes) (w : World) : Prop :=
  ∃ content, w.files p = some content ∧
    ∀ j, writeAt content (w.streams p).position ((w.streams p).pending.take j) <+: text

theorem writeAt_append_end (a b : Bytes) : writeAt a a.length b = a ++ b := by
  have h := writeAt_writeAt [] 0 a b
  rwa [writeAt_empty, writeAt_empty, Nat.zero_add] at h

/-- A write to the empty file, whole, buffered in part, or failed. -/
theorem draining_write {env : Env} {p text : Bytes} {w : World} (hf : w.files p = some [])
    (hs : w.streams p = { good := true }) :
    Draining text p (env.exec (.write p text) w).2 := by
  have hg : (w.streams p).good = true := by rw [hs]
  cases hfault : env.fault w.history.length (.write p text) with
  | none =>
    rw [exec_write hfault hg]
    generalize ((w.streams p).pending ++ text).length-_ = r
    refine ⟨text.take r, ?_, fun j => ?_⟩
    · rw [World.drain_files_self, World.buffer_files, World.buffer_streams_self, World.log_files,
        World.log_streams, hf, hs, Option.map_some, List.nil_append, writeAt_empty]
    · rw [World.drain_streams_self, World.buffer_streams_self, World.log_streams, hs,
        List.nil_append]
      simp only [Nat.zero_add]
      rw [writeAt_append_end, ← List.take_add]
      exact List.take_prefix _ _
  | some k =>
    have hex : (env.exec (.write p text) w).2 =
        (((w.log (.write p text)).buffer p text).spoil p k) := by
      simp only [Env.exec, FileOp.effect, hfault, World.log_streams, hg, Bool.true_eq_false,
        ↓reduceIte]
    rw [hex]
    refine ⟨text.take k, ?_, fun j => ?_⟩
    · rw [World.spoil, World.setStream_files, World.drain_files_self, World.buffer_files,
        World.buffer_streams_self, World.log_files, World.log_streams, hf, hs, Option.map_some,
        List.nil_append, writeAt_empty]
    · rw [World.spoil, World.setStream_streams_self, List.take_nil, writeAt_nil]
      exact List.take_prefix _ _

theorem exec_write_spoiled {env : Env} {p text : Bytes} {w : World} {k : ℕ}
    (hf : w.files p = some []) (hs : w.streams p = { good := true })
    (hfault : env.fault w.history.length (.write p text) = some k) :
    (env.exec (.write p text) w).2.files p = some (text.take k) ∧
      (env.exec (.write p text) w).2.streams p = {} := by
  have hg : (w.streams p).good = true := by rw [hs]
  have hex : (env.exec (.write p text) w).2 =
      (((w.log (.write p text)).buffer p text).spoil p k) := by
    simp only [Env.exec, FileOp.effect, hfault, World.log_streams, hg, Bool.true_eq_false,
      ↓reduceIte]
  rw [hex, World.spoil, World.setStream_streams_self, World.setStream_files,
    World.drain_files_self, World.buffer_files, World.buffer_streams_self, World.log_files,
    World.log_streams, hf, hs, Option.map_some, List.nil_append, writeAt_empty]
  exact ⟨rfl, rfl⟩

/-- Closing the stream, or failing to, leaves a prefix of the text. -/
theorem prefix_of_close {env : Env} {p text : Bytes} {w : World} (h : Draining text p w) :
    ∃ content, (env.exec (.close p) w).2.files p = some content ∧ content <+: text := by
  obtain ⟨content, hf, hp⟩ := h
  cases hfault : env.fault w.history.length (.close p) with
  | none =>
    rw [exec_close hfault, World.setStream_files, World.flush_files_self, World.view,
      World.log_files, World.log_streams, hf, Option.map_some]
    have hall := hp (w.streams p).pending.length
    rw [List.take_length] at hall
    exact ⟨_, rfl, hall⟩
  | some k =>
    have hex : (env.exec (.close p) w).2 = (w.log (.close p)).spoil p k := by
      simp only [Env.exec, FileOp.effect, hfault]
    rw [hex, World.spoil, World.setStream_files, World.drain_files_self, World.log_files,
      World.log_streams, hf, Option.map_some]
    exact ⟨_, rfl, hp k⟩

theorem close_of_closed {env : Env} {p : Bytes} {w : World} (hs : w.streams p = {}) :
    (env.exec (.close p) w).2.files p = w.files p := by
  have hview : w.view p = w.files p := World.view_of_pending_nil _ _ (by rw [hs])
  cases hfault : env.fault w.history.length (.close p) with
  | none =>
    rw [exec_close_files hfault, hview]
  | some k =>
    have hex : (env.exec (.close p) w).2 = (w.log (.close p)).spoil p k := by
      simp only [Env.exec, FileOp.effect, hfault]
    rw [hex, World.spoil, World.setStream_files, World.drain_files_self, World.log_files,
      World.log_streams, hs, List.take_nil]
    simp only [writeAt_nil, Option.map_id']

/-- On such a system a save reports success and leaves a prefix of its text, the first `k` bytes
where the write itself failed after `k`. -/
theorem run_saveCheckpoint_torn {env : Env} {path : Bytes} (ht : env.Torn path)
    (cp : TransferCheckpoint) (w w' : World) (ok : Bool)
    (hrun : Prog.run env.exec (saveCheckpoint path cp) w = (ok, w')) : ok = true ∧
      (∃ text, w'.files path = some text ∧ text <+: checkpointText cp ∧
        ∀ k, env.fault (w.history.length+1)
          (.write (temporaryPath path) (checkpointText cp)) = some k →
          text = (checkpointText cp).take k) ∧
      w'.files (temporaryPath path) = none ∧
      ∀ q, q ≠ path → q ≠ temporaryPath path → World.Same q w w' := by
  have htmp := temporaryPath_ne path
  have hopenf : env.fault w.history.length (.openTrunc (temporaryPath path)) = none :=
    ht _ _ (by rintro _ ⟨⟩) (by rintro ⟨⟩)
  obtain ⟨hok, hempty, hstream⟩ := exec_openTrunc_new hopenf
  have hlen1 := length_exec_history env (.openTrunc (temporaryPath path)) w
  have hsame1 := exec_same env (.openTrunc (temporaryPath path)) w
  rw [saveCheckpoint, call, Prog.run_bind, Prog.run_perform, if_pos hok] at hrun
  generalize (env.exec (.openTrunc (temporaryPath path)) w).2 = w1 at *
  -- the text is written and the stream closed
  have hdrain : Draining (checkpointText cp) (temporaryPath path)
      (env.exec (.write (temporaryPath path) (checkpointText cp)) w1).2 :=
    draining_write hempty hstream
  have hspoiled (k : ℕ) (hk : env.fault w1.history.length
      (.write (temporaryPath path) (checkpointText cp)) = some k) :=
    exec_write_spoiled hempty hstream hk
  have hsame2 := exec_same env (.write (temporaryPath path) (checkpointText cp)) w1
  simp only [call, Prog.run_bind, Prog.run_perform] at hrun
  generalize (env.exec (.write (temporaryPath path) (checkpointText cp)) w1).2 = w2 at *
  obtain ⟨text, hfile, hprefix⟩ : ∃ text, (env.exec (.close (temporaryPath path)) w2).2.files
      (temporaryPath path) = some text ∧ text <+: checkpointText cp := prefix_of_close hdrain
  have hexact (k : ℕ) (hk : env.fault (w.history.length+1)
      (.write (temporaryPath path) (checkpointText cp)) = some k) :
      text = (checkpointText cp).take k := by
    obtain ⟨hf, hst⟩ := hspoiled k (by rw [hlen1]; exact hk)
    rw [close_of_closed hst, hf, Option.some.injEq] at hfile
    exact hfile.symm
  have hsame3 := exec_same env (.close (temporaryPath path)) w2
  generalize (env.exec (.close (temporaryPath path)) w2).2 = w3 at *
  -- the temporary file takes the place of the old one
  obtain ⟨-, hothers⟩ := exec_remove_files
    (ht w3.history.length (.remove path) (by rintro _ ⟨⟩) (by rintro ⟨⟩))
  have hkept := (hothers _ htmp).trans hfile
  have hsame4 := exec_same env (.remove path) w3
  generalize (env.exec (.remove path) w3).2 = w4 at *
  have hrename := exec_rename (q := path)
    (ht w4.history.length _ (by rintro _ ⟨⟩) (by rintro ⟨⟩)) hkept
  have hsame5 := exec_same env (.rename (temporaryPath path) path) w4
  rw [hrename] at hrun hsame5
  obtain ⟨rfl, rfl⟩ := Prod.mk.inj hrun
  refine ⟨rfl, ⟨text, World.setFile_files_self _ _ _, hprefix, hexact⟩, ?_, fun q hq hq' => ?_⟩
  · rw [World.setFile_files_of_ne _ _ _ _ htmp, World.setFile_files_self]
  · have hone (o : FileOp) (ho : o.touches = [temporaryPath path] ∨ o.touches = [path]) :
        q ∉ o.touches := by
      rcases ho with ho | ho <;> rw [ho, List.mem_singleton] <;> assumption
    have htwo : q ∉ FileOp.touches (.rename (temporaryPath path) path) := by
      simp only [FileOp.touches, List.mem_cons, List.not_mem_nil, or_false, not_or]
      exact ⟨hq', hq⟩
    exact (hsame1 q (hone _ (Or.inl rfl))).trans ((hsame2 q (hone _ (Or.inl rfl))).trans
      ((hsame3 q (hone _ (Or.inl rfl))).trans ((hsame4 q (hone _ (Or.inr rfl))).trans
        (hsame5 q htwo))))

/-- Saves that may be cut short obey the law with a prefix of the text. -/
theorem Env.Torn.saveLaw {env : Env} {path : Bytes} (ht : env.Torn path) :
    SaveLaw env path fun cp text => text <+: checkpointText cp := by
  refine ⟨ht.calls, fun cp w w' ok hrun => ?_⟩
  obtain ⟨hok, ⟨text, hf, hp, -⟩, htmp, hsame⟩ := run_saveCheckpoint_torn ht cp w w' ok hrun
  exact ⟨hok, ⟨text, hf, hp⟩, htmp, hsame⟩

/-- The lines of a text that is cut after `k` bytes, read on from its first line: that line counts
with the part of its value that is there, and not at all when its key is cut. -/
theorem parseLines_take (l : TransferCheckpoint) (key value rest : Bytes) (k : ℕ)
    (hn : newline ∉ key ++ value) (hkey : key ≠ [])
    (hinert : ∀ j < key.length, parseLine l (key.take j) = some l) :
    (getlines newline ((endLine (key ++ value) ++ rest).take k)).foldlM parseLine l =
      (if k < key.length then some l else parseLine l (key ++ value.take (k-key.length))).bind
        fun l' => (getlines newline (rest.take (k-(key.length+value.length+1)))).foldlM
          parseLine l' := by
  have hpos : 0 < key.length := List.length_pos_iff.mpr hkey
  rw [endLine, List.append_assoc, List.singleton_append, getlines_take _ _ _ hn,
    List.length_append]
  by_cases hk : key.length+value.length < k
  · rw [if_pos hk, if_neg (by omega), List.foldlM_cons,
      show value.take (k-key.length) = value from List.take_of_length_le (by omega)]
    rfl
  · rw [if_neg hk, show k-(key.length+value.length+1) = 0 by omega, List.take_zero, getlines_nil]
    by_cases h0 : k = 0
    · rw [if_pos h0, if_pos (by omega)]
      rfl
    · have hline : newline ∉ (key ++ value).take k := fun h => hn (List.mem_of_mem_take h)
      have hne : (key ++ value).take k ≠ [] := by
        rw [ne_eq, List.take_eq_nil_iff, not_or, List.append_eq_nil_iff, not_and_or]
        exact ⟨h0, Or.inl hkey⟩
      rw [if_neg h0, getlines_last _ _ hline hne, List.foldlM_cons, List.take_append]
      split
      · rename_i hshort
        rw [show k-key.length = 0 by omega, List.take_zero, List.append_nil, hinert k hshort]
        rfl
      · rw [List.take_of_length_le (by omega)]
        rfl

/-- What is read of the number `n` behind a key when the text ends `k` bytes after the key begins;
a key that is cut leaves the number at zero. -/
def cutNumber (key : Bytes) (n k : ℕ) : Option UInt64 :=
  if k < key.length then some 0 else parseU64 ((toDecimal n).take (k-key.length))

section Positions

variable (cp : TransferCheckpoint)

/-- Where the value of each line begins in the text. -/
def filenameStart : ℕ := (endLine kCheckpointHeader ++ ascii "filename=").length

def fileSizeStart : ℕ :=
  filenameStart+cp.originalFilename.length+1+(ascii "file_size=").length

def chunkSizeStart : ℕ :=
  fileSizeStart cp+(toDecimal cp.fileSize.toNat).length+1+(ascii "chunk_size=").length

def chunkCountStart : ℕ :=
  chunkSizeStart cp+(toDecimal cp.chunkSize.toNat).length+1+(ascii "chunk_count=").length

def completedStart : ℕ :=
  chunkCountStart cp+(toDecimal cp.totalChunks.toNat).length+1+(ascii "completed=").length

end Positions

theorem cutNumber_map (l : TransferCheckpoint) (key : Bytes) (n k : ℕ)
    (set : UInt64 → TransferCheckpoint) (h0 : set 0 = l)
    (hp : ∀ value, parseLine l (key ++ value) = (parseU64 value).map set) :
    (if k < key.length then some l
      else parseLine l (key ++ (toDecimal n).take (k-key.length))) = (cutNumber key n k).map set := by
  unfold cutNumber
  split
  · rw [Option.map_some, h0]
  · exact hp _

def fieldText (cp : TransferCheckpoint) : Bytes :=
  endLine (ascii "filename=" ++ cp.originalFilename) ++
  (endLine (ascii "file_size=" ++ toDecimal cp.fileSize.toNat) ++
  (endLine (ascii "chunk_size=" ++ toDecimal cp.chunkSize.toNat) ++
  (endLine (ascii "chunk_count=" ++ toDecimal cp.totalChunks.toNat) ++
  endLine (ascii "completed=" ++ completedText true cp.completedChunks.toList))))

theorem parseCheckpoint_take_header (cp : TransferCheckpoint) (k : ℕ) :
    parseCheckpoint ((checkpointText cp).take k) =
      if k < kCheckpointHeader.length then none
      else (getlines newline ((fieldText cp).take (k-(kCheckpointHeader.length+1)))).foldlM
        parseLine {} := by
  have htext : checkpointText cp = kCheckpointHeader ++ newline :: fieldText cp := by
    rw [checkpointText, endLine, List.append_assoc, List.singleton_append, fieldText]
  rw [parseCheckpoint, htext, getlines_take _ _ _ (by decide)]
  by_cases hk : kCheckpointHeader.length < k
  · rw [if_pos hk, if_neg (by omega)]
    simp only [ne_eq, not_true_eq_false, ↓reduceIte]
  · rw [if_neg hk]
    by_cases h0 : k = 0
    · rw [if_pos h0, h0]
      rfl
    · have hline : newline ∉ kCheckpointHeader.take k :=
        fun h => absurd (List.mem_of_mem_take h) (by decide)
      have hne : kCheckpointHeader.take k ≠ [] := by
        rw [ne_eq, List.take_eq_nil_iff, not_or]
        exact ⟨h0, by decide⟩
      rw [if_neg h0, getlines_last _ _ hline hne]
      by_cases hshort : k < kCheckpointHeader.length
      · have hcut : kCheckpointHeader.take k ≠ kCheckpointHeader := by
          intro h
          have hl := congrArg List.length h
          rw [List.length_take] at hl
          omega
        simp only [hcut, ne_eq, not_false_eq_true, ↓reduceIte, hshort]
      · rw [if_neg hshort, show k-(kCheckpointHeader.length+1) = 0 by omega, List.take_zero,
          getlines_nil, List.take_of_length_le (by omega)]
        simp only [ne_eq, not_true_eq_false, ↓reduceIte]

/-- A key that is cut is no key at all. -/
theorem parseLine_take_key (key : Bytes) (hkey : key ∈ [ascii "filename=", ascii "file_size=",
    ascii "chunk_size=", ascii "chunk_count=", ascii "completed="]) (l : TransferCheckpoint)
    (j : ℕ) (hj : j < key.length) : parseLine l (key.take j) = some l := by
  have hcut : ∀ key ∈ [ascii "filename=", ascii "file_size=", ascii "chunk_size=",
      ascii "chunk_count=", ascii "completed="], ∀ j < key.length,
      (ascii "filename=").isPrefixOf (key.take j) = false ∧
      (ascii "file_size=").isPrefixOf (key.take j) = false ∧
      (ascii "chunk_size=").isPrefixOf (key.take j) = false ∧
      (ascii "chunk_count=").isPrefixOf (key.take j) = false ∧
      (ascii "completed=").isPrefixOf (key.take j) = false := by decide
  obtain ⟨c1, c2, c3, c4, c5⟩ := hcut key hkey j hj
  simp only [parseLine, startsWith, c1, c2, c3, c4, c5, Bool.false_eq_true, ↓reduceIte]

/-- What is left of `k` bytes behind a line whose value begins at `start`, seen from the value of
the next line. -/
theorem sub_line (k start key value next : ℕ) :
    k+key-start-(key+value+1) = k+next-(start+value+1+next) := by omega

/-- The loader on the first `k` bytes of a text: each field is what is there of its own value. -/
theorem parseCheckpoint_take (cp : TransferCheckpoint) (hn : newline ∉ cp.originalFilename)
    (k : ℕ) : parseCheckpoint ((checkpointText cp).take k) =
      if k < kCheckpointHeader.length then none
      else (cutNumber (ascii "file_size=") cp.fileSize.toNat
          (k+(ascii "file_size=").length-fileSizeStart cp)).bind fun fileSize =>
        (cutNumber (ascii "chunk_size=") cp.chunkSize.toNat
          (k+(ascii "chunk_size=").length-chunkSizeStart cp)).bind fun chunkSize =>
        (cutNumber (ascii "chunk_count=") cp.totalChunks.toNat
          (k+(ascii "chunk_count=").length-chunkCountStart cp)).bind fun totalChunks =>
        (parseCompletedChunks ((completedText true cp.completedChunks.toList).take
          (k-completedStart cp))).map fun completedChunks =>
        { originalFilename := cp.originalFilename.take (k-filenameStart)
          fileSize, chunkSize := chunkSize.toUInt32, totalChunks, completedChunks } := by
  have hd (n : ℕ) : newline ∉ toDecimal n := not_mem_toDecimal n newline (by decide)
  have h1 := not_mem_line (ascii "filename=") _ (by decide) hn
  have h2 := not_mem_line (ascii "file_size=") _ (by decide) (hd cp.fileSize.toNat)
  have h3 := not_mem_line (ascii "chunk_size=") _ (by decide) (hd cp.chunkSize.toNat)
  have h4 := not_mem_line (ascii "chunk_count=") _ (by decide) (hd cp.totalChunks.toNat)
  have h5 := not_mem_line (ascii "completed=") _ (by decide)
    (not_mem_completedText true cp.completedChunks.toList newline (by decide) (by decide))
  rw [parseCheckpoint_take_header]
  refine if_congr Iff.rfl rfl ?_
  rw [fieldText, parseLines_take _ _ _ _ _ h1 (by decide) (parseLine_take_key _ (by decide) _)]
  have hname : (if k-(kCheckpointHeader.length+1) < (ascii "filename=").length then some {}
      else parseLine {} (ascii "filename=" ++ cp.originalFilename.take
        (k-(kCheckpointHeader.length+1)-(ascii "filename=").length))) =
      some { originalFilename := cp.originalFilename.take (k-filenameStart) } := by
    have hstart : filenameStart = kCheckpointHeader.length+1+(ascii "filename=").length := by
      decide
    rw [parseLine_filename, hstart]
    split
    · rename_i hshort
      rw [show k-(kCheckpointHeader.length+1+(ascii "filename=").length) = 0 by omega,
        List.take_zero]
    · rw [Nat.sub_sub]
  have hfirst : filenameStart = kCheckpointHeader.length+1+(ascii "filename=").length := by decide
  have e2 : k-(kCheckpointHeader.length+1)-((ascii "filename=").length+
      cp.originalFilename.length+1) = k+(ascii "file_size=").length-fileSizeStart cp := by
    rw [fileSizeStart]
    omega
  have e3 : k+(ascii "file_size=").length-fileSizeStart cp-((ascii "file_size=").length+
      (toDecimal cp.fileSize.toNat).length+1) =
      k+(ascii "chunk_size=").length-chunkSizeStart cp := sub_line k _ _ _ _
  have e4 : k+(ascii "chunk_size=").length-chunkSizeStart cp-((ascii "chunk_size=").length+
      (toDecimal cp.chunkSize.toNat).length+1) =
      k+(ascii "chunk_count=").length-chunkCountStart cp := sub_line k _ _ _ _
  have e5 : k+(ascii "chunk_count=").length-chunkCountStart cp-((ascii "chunk_count=").length+
      (toDecimal cp.totalChunks.toNat).length+1) =
      k+(ascii "completed=").length-completedStart cp := sub_line k _ _ _ _
  -- one line after the other, each from what is left of the bytes
  rw [hname, Option.bind_some,
    parseLines_take _ _ _ _ _ h2 (by decide) (parseLine_take_key _ (by decide) _),
    cutNumber_map _ _ _ _ (fun v => { originalFilename := _, fileSize := v }) rfl
      (parseLine_fileSize _), Option.bind_map, e2]
  refine congrArg (Option.bind _) (funext fun fileSize => ?_)
  rw [Function.comp_apply,
    parseLines_take _ _ _ _ _ h3 (by decide) (parseLine_take_key _ (by decide) _),
    cutNumber_map { originalFilename := cp.originalFilename.take (k-filenameStart), fileSize } _ _ _
      (fun v => { originalFilename := _, fileSize := _, chunkSize := v.toUInt32 }) rfl
      (parseLine_chunkSize _), Option.bind_map, e3]
  refine congrArg (Option.bind _) (funext fun chunkSize => ?_)
  rw [Function.comp_apply,
    parseLines_take _ _ _ _ _ h4 (by decide) (parseLine_take_key _ (by decide) _),
    cutNumber_map _ _ _ _ (fun v =>
      { originalFilename := _, fileSize := _, chunkSize := _, totalChunks := v }) rfl
      (parseLine_chunkCount _), Option.bind_map, e4]
  refine congrArg (Option.bind _) (funext fun totalChunks => ?_)
  have hlast := parseLines_take
    { originalFilename := cp.originalFilename.take (k-filenameStart)
      fileSize, chunkSize := chunkSize.toUInt32, totalChunks } (ascii "completed=")
    (completedText true cp.completedChunks.toList) []
    (k+(ascii "completed=").length-completedStart cp) h5 (by decide)
    (parseLine_take_key _ (by decide) _)
  rw [List.append_nil, List.take_nil, getlines_nil] at hlast
  rw [Function.comp_apply, e5, hlast]
  split
  · rename_i hshort
    rw [show k-completedStart cp = 0 by omega, List.take_zero]
    rfl
  · rw [show k+(ascii "completed=").length-completedStart cp-(ascii "completed=").length =
      k-completedStart cp by omega, parseLine_completed, Option.bind_map]
    cases parseCompletedChunks ((completedText true cp.completedChunks.toList).take
      (k-completedStart cp)) <;> rfl

theorem completedText_cons (i : UInt64) (is : List UInt64) :
    completedText true (i :: is) = toDecimal i.toNat ++ completedText false is := by
  rw [completedText, if_pos rfl, List.nil_append]

/-- The list of indexes cut after `j` bytes: the indexes before some `x` of it, and possibly one
smaller than `x` made of the first digits of `x`. -/
theorem parseParts_take (indexes : List UInt64) (chunks : AscSet UInt64) (j : ℕ)
    (hj : j < (completedText true indexes).length) :
    ∃ t x, indexes[t]? = some x ∧
      (parseParts chunks (getlines comma ((completedText true indexes).take j)) =
        some (AscSet.insertAll (indexes.take t) chunks) ∨
      ∃ v < x, parseParts chunks (getlines comma ((completedText true indexes).take j)) =
        some ((AscSet.insertAll (indexes.take t) chunks).insert v)) := by
  -- the cut is inside the first index, right behind it, or in the others
  induction indexes generalizing chunks j with
  | nil => exact absurd hj (Nat.not_lt_zero j)
  | cons i is ih =>
    have hi : comma ∉ toDecimal i.toNat := not_mem_toDecimal _ _ (by decide)
    rw [completedText_cons] at hj ⊢
    by_cases hin : j < (toDecimal i.toNat).length
    · -- the text ends inside the first index
      refine ⟨0, i, rfl, ?_⟩
      rw [List.take_append_of_le_length hin.le]
      by_cases h0 : j = 0
      · rw [h0, List.take_zero, getlines_nil]
        exact Or.inl rfl
      · have hlt := ofDecimal_take_lt i.toNat j (by omega) hin
        have hne : (toDecimal i.toNat).take j ≠ [] := by
          rw [ne_eq, List.take_eq_nil_iff, not_or]
          exact ⟨h0, toDecimal_ne_nil _⟩
        refine Or.inr ⟨UInt64.ofNat (ofDecimal ((toDecimal i.toNat).take j)), ?_, ?_⟩
        · rw [UInt64.lt_iff_toNat_lt, UInt64.toNat_ofNat_of_lt' (hlt.trans i.toNat_lt)]
          exact hlt
        · rw [getlines_last comma _ (fun h => hi (List.mem_of_mem_take h)) hne, parseParts,
            if_neg hne, parseU64, stoull_take _ _ i.toNat_lt (by omega)]
          rfl
    · have hn : is ≠ [] := by
        rintro rfl
        rw [completedText, List.append_nil] at hj
        omega
      obtain ⟨b, bs, rfl⟩ := List.exists_cons_of_ne_nil hn
      have hfirst (parts : List Bytes) : parseParts chunks (toDecimal i.toNat :: parts) =
          parseParts (chunks.insert i) parts := by
        rw [parseParts, if_neg (toDecimal_ne_nil _), parseU64_toDecimal]
        rfl
      rw [completedText_false (b :: bs) hn] at hj ⊢
      rw [getlines_take comma _ _ hi]
      by_cases hat : j = (toDecimal i.toNat).length
      · -- it ends behind the first index
        refine ⟨1, b, rfl, Or.inl ?_⟩
        rw [if_neg (by omega), if_neg (by have := toDecimal_ne_nil i.toNat
                                          rw [hat, List.length_eq_zero_iff]; exact this),
          hat, List.take_length, getlines_last comma _ hi (toDecimal_ne_nil _), hfirst]
        rfl
      · rw [if_pos (by omega), hfirst]
        rw [List.length_append, List.length_cons] at hj
        obtain ⟨t, x, hx, hres⟩ := ih (chunks.insert i)
          (j-((toDecimal i.toNat).length+1)) (by omega)
        exact ⟨t+1, x, hx, hres⟩

/-- A cut list never holds the index it was cut in or any behind it. -/
theorem parseCompletedChunks_take (chunks : AscSet UInt64) (j : ℕ)
    (hj : j < (completedText true chunks.toList).length) :
    ∃ x ∈ chunks, ∃ read, parseCompletedChunks ((completedText true chunks.toList).take j) =
      some read ∧ (∀ y ∈ read, y < x) ∧ ∀ y ∈ chunks, y < x → y ∈ read := by
  obtain ⟨t, x, hx, hres⟩ := parseParts_take chunks.toList ∅ j hj
  have hmem : x ∈ chunks := List.mem_of_getElem? hx
  have htake (y : UInt64) : y ∈ AscSet.insertAll (chunks.toList.take t) ∅ ↔ y ∈ chunks ∧ y < x := by
    rw [AscSet.mem_insertAll, chunks.mem_take_iff t x hx, or_iff_left (AscSet.not_mem_empty y)]
  rcases hres with hres | ⟨v, hv, hres⟩
  · exact ⟨x, hmem, _, hres, fun y hy => ((htake y).mp hy).2, fun y hy hlt =>
      (htake y).mpr ⟨hy, hlt⟩⟩
  · refine ⟨x, hmem, _, hres, fun y hy => ?_, fun y hy hlt => ?_⟩
    · rw [AscSet.mem_insert] at hy
      rcases hy with rfl | hy
      · exact hv
      · exact ((htake y).mp hy).2
    · exact (AscSet.mem_insert v y _).mpr (Or.inr ((htake y).mpr ⟨hy, hlt⟩))

theorem parseCompletedChunks_take_eq_iff (chunks : AscSet UInt64) (j : ℕ) :
    parseCompletedChunks ((completedText true chunks.toList).take j) = some chunks ↔
      (completedText true chunks.toList).length ≤ j := by
  constructor
  · intro h
    by_contra hj
    obtain ⟨x, hx, read, hread, hlt, -⟩ := parseCompletedChunks_take chunks j (not_le.mp hj)
    rw [hread, Option.some.injEq] at h
    exact absurd (hlt x (h ▸ hx)) (lt_irrefl x)
  · intro hj
    rw [List.take_of_length_le hj, parseCompletedChunks_completedText]

/-- A number comes back from a cut text when all its digits are there, or when it is zero and even
its key is cut. -/
theorem cutNumber_eq_iff (key : Bytes) (n k : ℕ) (hn : n < 2^64) :
    cutNumber key n k = some (UInt64.ofNat n) ↔
      (n = 0 ∧ k < key.length) ∨ key.length+(toDecimal n).length ≤ k := by
  have hinj (v : ℕ) (hv : v < 2^64) : some (UInt64.ofNat v) = some (UInt64.ofNat n) ↔ v = n := by
    rw [Option.some.injEq, ← UInt64.toNat_inj, UInt64.toNat_ofNat_of_lt' hv,
      UInt64.toNat_ofNat_of_lt' hn]
  have hpos : 0 < (toDecimal n).length := List.length_pos_iff.mpr (toDecimal_ne_nil n)
  unfold cutNumber
  split
  · rename_i hk
    rw [show (0 : UInt64) = UInt64.ofNat 0 from rfl, hinj 0 (by decide)]
    omega
  · rename_i hk
    by_cases hat : k = key.length
    · rw [hat, Nat.sub_self, List.take_zero]
      exact iff_of_false nofun (by omega)
    · rw [parseU64, stoull_take n _ hn (by omega)]
      by_cases hcut : k-key.length < (toDecimal n).length
      · have hlt := ofDecimal_take_lt n _ (by omega) hcut
        rw [hinj _ (hlt.trans hn)]
        omega
      · rw [List.take_of_length_le (not_lt.mp hcut), ofDecimal_toDecimal]
        exact iff_of_true rfl (by omega)

theorem cutNumber_le (key : Bytes) (n k : ℕ) (hn : n < 2^64) (v : UInt64)
    (h : cutNumber key n k = some v) : v.toNat ≤ n := by
  unfold cutNumber at h
  split at h
  · obtain rfl := Option.some.inj h
    exact Nat.zero_le n
  · rename_i hk
    by_cases hat : k = key.length
    · rw [hat, Nat.sub_self, List.take_zero] at h
      cases h
    · rw [parseU64, stoull_take n _ hn (by omega), Option.some.injEq] at h
      subst h
      by_cases hcut : k-key.length < (toDecimal n).length
      · have hlt := ofDecimal_take_lt n _ (by omega) hcut
        rw [UInt64.toNat_ofNat_of_lt' (hlt.trans hn)]
        exact hlt.le
      · rw [List.take_of_length_le (not_lt.mp hcut), ofDecimal_toDecimal,
          UInt64.toNat_ofNat_of_lt' hn]

/-- The bytes that must be in the file for a checkpoint to come back: its header, and each value
that is not the one a loader starts from. A zero is lost when its line ends behind the key. -/
structure SurvivesCut (cp : TransferCheckpoint) (k : ℕ) : Prop where
  header : kCheckpointHeader.length ≤ k
  filename : cp.originalFilename = [] ∨ filenameStart+cp.originalFilename.length ≤ k
  fileSize : (cp.fileSize = 0 ∧ k < fileSizeStart cp) ∨
    fileSizeStart cp+(toDecimal cp.fileSize.toNat).length ≤ k
  chunkSize : (cp.chunkSize = 0 ∧ k < chunkSizeStart cp) ∨
    chunkSizeStart cp+(toDecimal cp.chunkSize.toNat).length ≤ k
  totalChunks : (cp.totalChunks = 0 ∧ k < chunkCountStart cp) ∨
    chunkCountStart cp+(toDecimal cp.totalChunks.toNat).length ≤ k
  completed : cp.completedChunks = ∅ ∨
    completedStart cp+(completedText true cp.completedChunks.toList).length ≤ k

theorem cutNumber_u64_iff (key : Bytes) (v : UInt64) (k start : ℕ) (hkey : 0 < key.length) :
    cutNumber key v.toNat (k+key.length-start) = some v ↔
      (v = 0 ∧ k < start) ∨ start+(toDecimal v.toNat).length ≤ k := by
  have h := cutNumber_eq_iff key v.toNat (k+key.length-start) v.toNat_lt
  have hzero : v.toNat = 0 ↔ v = 0 := UInt64.toNat_inj (b := 0)
  have hpos : 0 < (toDecimal v.toNat).length := List.length_pos_iff.mpr (toDecimal_ne_nil _)
  rw [UInt64.ofNat_toNat, hzero] at h
  rw [h, show k+key.length-start < key.length ↔ k < start by omega,
    show key.length+(toDecimal v.toNat).length ≤ k+key.length-start ↔
      start+(toDecimal v.toNat).length ≤ k by omega]

theorem cutNumber_u32_iff (key : Bytes) (v : UInt32) (k start : ℕ) (hkey : 0 < key.length) :
    (∃ x, cutNumber key v.toNat (k+key.length-start) = some x ∧ x.toUInt32 = v) ↔
      (v = 0 ∧ k < start) ∨ start+(toDecimal v.toNat).length ≤ k := by
  have h := cutNumber_u64_iff key v.toUInt64 k start hkey
  have hzero : v.toUInt64 = 0 ↔ v = 0 := by
    rw [← UInt64.toNat_inj, ← UInt32.toNat_inj, UInt32.toNat_toUInt64]
    rfl
  rw [UInt32.toNat_toUInt64, hzero] at h
  rw [← h]
  constructor
  · rintro ⟨x, hx, hv⟩
    have hle := cutNumber_le key v.toNat _ (v.toNat_lt.trans (by decide)) x hx
    rw [hx, Option.some.injEq, ← UInt64.toNat_inj, UInt32.toNat_toUInt64, ← hv,
      UInt64.toNat_toUInt32]
    have hlt := v.toNat_lt
    omega
  · intro hx
    exact ⟨v.toUInt64, hx, UInt32.toUInt32_toUInt64 v⟩

/-- A text cut after `k` bytes is loaded as the checkpoint it was printed from exactly when what
matters of it is there. -/
theorem parseCheckpoint_take_eq_iff (cp : TransferCheckpoint)
    (hn : newline ∉ cp.originalFilename) (k : ℕ) :
    parseCheckpoint ((checkpointText cp).take k) = some cp ↔ SurvivesCut cp k := by
  have hname : cp.originalFilename.take (k-filenameStart) = cp.originalFilename ↔
      cp.originalFilename = [] ∨ filenameStart+cp.originalFilename.length ≤ k := by
    rw [List.take_eq_self_iff, ← List.length_eq_zero_iff]
    omega
  have hcompleted := parseCompletedChunks_take_eq_iff cp.completedChunks (k-completedStart cp)
  have hempty : cp.completedChunks = ∅ ↔
      (completedText true cp.completedChunks.toList).length = 0 := by
    rw [List.length_eq_zero_iff]
    constructor
    · intro h
      rw [h]
      rfl
    · intro h
      have hback := parseCompletedChunks_completedText cp.completedChunks
      rw [h] at hback
      exact (Option.some.inj hback).symm
  have hlist : (completedText true cp.completedChunks.toList).length ≤ k-completedStart cp ↔
      cp.completedChunks = ∅ ∨
        completedStart cp+(completedText true cp.completedChunks.toList).length ≤ k := by
    rw [hempty]
    omega
  have hfs := cutNumber_u64_iff (ascii "file_size=") cp.fileSize k (fileSizeStart cp) (by decide)
  have hcs := cutNumber_u32_iff (ascii "chunk_size=") cp.chunkSize k (chunkSizeStart cp)
    (by decide)
  have hcc := cutNumber_u64_iff (ascii "chunk_count=") cp.totalChunks k (chunkCountStart cp)
    (by decide)
  rw [parseCheckpoint_take cp hn]
  split
  · rename_i hshort
    exact iff_of_false nofun fun h => absurd h.header (not_le.mpr hshort)
  · rename_i hheader
    simp only [Option.bind_eq_some_iff, Option.map_eq_some_iff]
    constructor
    · rintro ⟨fs, h1, cs, h2, cc, h3, read, h4, he⟩
      have hf := congrArg TransferCheckpoint.originalFilename he
      obtain rfl : fs = cp.fileSize := congrArg TransferCheckpoint.fileSize he
      have hcs' : cs.toUInt32 = cp.chunkSize := congrArg TransferCheckpoint.chunkSize he
      obtain rfl : cc = cp.totalChunks := congrArg TransferCheckpoint.totalChunks he
      obtain rfl : read = cp.completedChunks := congrArg TransferCheckpoint.completedChunks he
      exact ⟨not_lt.mp hheader, hname.mp hf, hfs.mp h1, hcs.mp ⟨cs, h2, hcs'⟩, hcc.mp h3,
        hlist.mp (hcompleted.mp h4)⟩
    · intro h
      obtain ⟨cs, h2, hcs'⟩ := hcs.mpr h.chunkSize
      refine ⟨cp.fileSize, hfs.mpr h.fileSize, cs, h2, cp.totalChunks, hcc.mpr h.totalChunks,
        cp.completedChunks, hcompleted.mpr (hlist.mpr h.completed), ?_⟩
      rw [hcs', hname.mpr h.filename]

/-- A disk on which writing the temporary file of `path` fails after `k` bytes. -/
def Env.diskFull (path : Bytes) (k : ℕ) : Env where
  fault _ o :=
    match o with
    | .write p _ => if p = temporaryPath path then some k else none
    | _ => none

theorem Env.diskFull_torn (path : Bytes) (k : ℕ) : (Env.diskFull path k).Torn path := by
  intro n o hw _
  cases o with
  | write p data =>
    apply if_neg
    rintro rfl
    exact hw data rfl
  | _ => rfl

theorem run_saveAndLoad_diskFull (path : Bytes) (cp : TransferCheckpoint) (w : World) (k : ℕ) :
    (Prog.run (Env.diskFull path k).exec (saveAndLoad path cp) w).1 =
      (true, parseCheckpoint ((checkpointText cp).take k)) := by
  have htorn := Env.diskFull_torn path k
  have hsave := run_saveCheckpoint_torn htorn cp w
  rw [saveAndLoad, Prog.run_bind]
  generalize Prog.run (Env.diskFull path k).exec (saveCheckpoint path cp) w = saved at hsave ⊢
  obtain ⟨ok, w1⟩ := saved
  obtain ⟨rfl, ⟨text, hfile, -, hcut⟩, -, -⟩ := hsave w1 ok rfl
  obtain rfl := hcut k (if_pos rfl)
  rw [Prog.run_bind, Prog.run_pure, run_loadCheckpoint rfl, hfile, Option.bind_some]

/-- A save that reports success on a failing disk is to be relied on exactly when the failure came
behind everything that matters. -/
theorem save_reliable_iff (path : Bytes) (cp : TransferCheckpoint)
    (hn : newline ∉ cp.originalFilename) (w : World) (k : ℕ) :
    ((Prog.run (Env.diskFull path k).exec (saveAndLoad path cp) w).1.1 = true →
      (Prog.run (Env.diskFull path k).exec (saveAndLoad path cp) w).1.2 = some cp) ↔
      SurvivesCut cp k := by
  rw [run_saveAndLoad_diskFull, ← parseCheckpoint_take_eq_iff cp hn]
  exact ⟨fun h => h rfl, fun h _ => h⟩

/-- The last number is there, its line break is not. -/
theorem save_reliable_iff_last :
    (Prog.run (Env.diskFull (ascii "a.pbcheckpoint") 84).exec
      (saveAndLoad (ascii "a.pbcheckpoint") { originalFilename := ascii "a" })
      (boot fun _ => none)).1.2 = some { originalFilename := ascii "a" } :=
  (save_reliable_iff (ascii "a.pbcheckpoint") { originalFilename := ascii "a" } (by decide)
    (boot fun _ => none) 84).mpr
    ⟨by decide, Or.inr (by decide), Or.inr (by decide), Or.inr (by decide), Or.inr (by decide),
      Or.inl rfl⟩ (by rw [run_saveAndLoad_diskFull])

/-- The disk is full inside the first key: success is reported and another checkpoint is loaded. -/
theorem save_unreliable :
    (Prog.run (Env.diskFull (ascii "a.pbcheckpoint") 30).exec
      (saveAndLoad (ascii "a.pbcheckpoint") { originalFilename := ascii "a", fileSize := 1 })
      (boot fun _ => none)).1 = (true, some {}) := by
  rw [run_saveAndLoad_diskFull]
  rfl

end PacketBridge
