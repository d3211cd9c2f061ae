import PacketBridge.Protocol
import PacketBridge.FileSystem
import PacketBridge.Foundations.AscSet
import PacketBridge.Foundations.Text

/-! The checkpoint file: a text of `key=value` lines, read back by the rule that the last line of a
key wins, and replaced through a temporary file. -/
namespace PacketBridge
open Foundations

structure TransferCheckpoint where
  originalFilename : Bytes := []
  fileSize : UInt64 := 0
  chunkSize : UInt32 := 0
  totalChunks : UInt64 := 0
  completedChunks : AscSet UInt64 := ∅
  deriving DecidableEq

def kCheckpointHeader : Bytes := ascii "PACKETBRIDGE_CHECKPOINT_V1"

def newline : UInt8 := 10
def comma : UInt8 := 44
def equalsSign : UInt8 := 61

/-- What follows the first `'='`; nothing when there is none. -/
def valueAfterEquals (line : Bytes) : Bytes := (line.dropWhile (· != equalsSign)).tail

def parseU64 (value : Bytes) : Option UInt64 := stoull value

def parseParts (chunks : AscSet UInt64) : List Bytes → Option (AscSet UInt64)
  | [] => some chunks
  | part :: rest =>
    if part = [] then parseParts chunks rest
    else do
      let index ← parseU64 part
      parseParts (chunks.insert index) rest

def parseCompletedChunks (value : Bytes) : Option (AscSet UInt64) :=
  parseParts ∅ (getlines comma value)

def parseLine (loaded : TransferCheckpoint) (line : Bytes) : Option TransferCheckpoint :=
  if startsWith (ascii "filename=") line then
    some { loaded with originalFilename := valueAfterEquals line }
  else if startsWith (ascii "file_size=") line then do
    let value ← parseU64 (valueAfterEquals line)
    return { loaded with fileSize := value }
  else if startsWith (ascii "chunk_size=") line then do
    let value ← parseU64 (valueAfterEquals line)
    return { loaded with chunkSize := value.toUInt32 }
  else if startsWith (ascii "chunk_count=") line then do
    let value ← parseU64 (valueAfterEquals line)
    return { loaded with totalChunks := value }
  else if startsWith (ascii "completed=") line then do
    let chunks ← parseCompletedChunks (valueAfterEquals line)
    return { loaded with completedChunks := chunks }
  else some loaded

def parseCheckpoint (text : Bytes) : Option TransferCheckpoint :=
  match getlines newline text with
  | [] => none
  | line :: lines => if line ≠ kCheckpointHeader then none else lines.foldlM parseLine {}

/-- The indexes of the `completed` line, each but the first behind a comma. -/
def completedText : Bool → List UInt64 → Bytes
  | _, [] => []
  | first, index :: rest =>
    (if first then [] else [comma]) ++ toDecimal index.toNat ++ completedText false rest

def endLine (line : Bytes) : Bytes := line ++ [newline]

def checkpointText (checkpoint : TransferCheckpoint) : Bytes :=
  endLine kCheckpointHeader ++
  (endLine (ascii "filename=" ++ checkpoint.originalFilename) ++
  (endLine (ascii "file_size=" ++ toDecimal checkpoint.fileSize.toNat) ++
  (endLine (ascii "chunk_size=" ++ toDecimal checkpoint.chunkSize.toNat) ++
  (endLine (ascii "chunk_count=" ++ toDecimal checkpoint.totalChunks.toNat) ++
  endLine (ascii "completed=" ++ completedText true checkpoint.completedChunks.toList)))))

def checkpointPathForOutput (outputPath : Bytes) : Bytes := outputPath ++ ascii ".pbcheckpoint"

def temporaryPath (path : Bytes) : Bytes := path ++ ascii ".tmp"

def fileExists (path : Bytes) : FileProg Bool := do
  let file ← call (.read path)
  return file.isSome

def loadCheckpoint (path : Bytes) : FileProg (Option TransferCheckpoint) := do
  let input ← call (.read path)
  return input.bind parseCheckpoint

/-- The stream is closed before the old file is removed and the new one takes its name. -/
def saveCheckpoint (path : Bytes) (checkpoint : TransferCheckpoint) : FileProg Bool := do
  let opened ← call (.openTrunc (temporaryPath path))
  if opened then
    let _ ← call (.write (temporaryPath path) (checkpointText checkpoint))
    call (.close (temporaryPath path))
    let _ ← call (.remove path)
    call (.rename (temporaryPath path) path)
  else return false

def removeCheckpoint (path : Bytes) : FileProg Bool := do
  let removed ← call (.remove path)
  if removed then return true
  else
    let exists_ ← fileExists path
    return !exists_

def checkpointMatchesManifest (checkpoint : TransferCheckpoint) (manifest : FileManifest) : Bool :=
  if checkpoint.originalFilename ≠ manifest.filename ∨ checkpoint.fileSize ≠ manifest.fileSize ∨
      checkpoint.chunkSize ≠ manifest.chunkSize ∨
      checkpoint.totalChunks ≠ manifest.chunkCount then false
  else checkpoint.completedChunks.toList.all fun index => index < manifest.chunkCount

def createCheckpointFromManifest (manifest : FileManifest) : TransferCheckpoint :=
  { originalFilename := manifest.filename
    fileSize := manifest.fileSize
    chunkSize := manifest.chunkSize
    totalChunks := manifest.chunkCount }

/-- The indexes below the count, in ascending order, that are not in the completed set. -/
def missingChunks (checkpoint : TransferCheckpoint) : List UInt64 :=
  ((List.range checkpoint.totalChunks.toNat).map UInt64.ofNat).filter fun index =>
    index ∉ checkpoint.completedChunks

theorem valueAfterEquals_append (key value : Bytes) (h : equalsSign ∉ key) :
    valueAfterEquals (key ++ equalsSign :: value) = value := by
  rw [valueAfterEquals, List.dropWhile_append_of_pos]
  · rw [List.dropWhile_cons_of_neg (by simp), List.tail_cons]
  · intro b hb
    rw [bne_iff_ne]
    rintro rfl
    exact h hb

theorem completedText_false (indexes : List UInt64) (hn : indexes ≠ []) :
    completedText false indexes = comma :: completedText true indexes := by
  cases indexes with
  | nil => exact absurd rfl hn
  | cons i is => rfl

theorem not_mem_toDecimal (n : ℕ) (b : UInt8) (hb : isDigit b = false) : b ∉ toDecimal n := by
  intro hm
  rw [isDigit_of_mem_toDecimal n b hm] at hb
  cases hb

theorem not_mem_completedText (first : Bool) (indexes : List UInt64) (b : UInt8)
    (hb : isDigit b = false) (hc : b ≠ comma) : b ∉ completedText first indexes := by
  induction indexes generalizing first with
  | nil => exact List.not_mem_nil
  | cons i is ih =>
    simp only [completedText, List.mem_append, not_or]
    refine ⟨⟨?_, not_mem_toDecimal i.toNat b hb⟩, ih false⟩
    split
    · exact List.not_mem_nil
    · rwa [List.mem_singleton]

theorem getlines_completedText (indexes : List UInt64) :
    getlines comma (completedText true indexes) = indexes.map fun i => toDecimal i.toNat := by
  induction indexes with
  | nil => rfl
  | cons i is ih =>
    have hi : comma ∉ toDecimal i.toNat := not_mem_toDecimal _ _ (by decide)
    rw [completedText, if_pos rfl, List.nil_append, List.map_cons]
    by_cases hn : is = []
    · rw [hn, completedText, List.append_nil, List.map_nil]
      exact getlines_last comma _ hi (toDecimal_ne_nil _)
    · rw [completedText_false is hn, getlines_append_delim comma _ _ hi, ih]

theorem parseParts_toDecimal (indexes : List UInt64) (chunks : AscSet UInt64) :
    parseParts chunks (indexes.map fun i => toDecimal i.toNat) =
      some (AscSet.insertAll indexes chunks) := by
  induction indexes generalizing chunks with
  | nil => rfl
  | cons i is ih =>
    rw [List.map_cons, parseParts, if_neg (toDecimal_ne_nil _), parseU64,
      stoull_toDecimal _ i.toNat_lt, UInt64.ofNat_toNat, AscSet.insertAll_cons, ← ih]
    rfl

theorem parseCompletedChunks_completedText (chunks : AscSet UInt64) :
    parseCompletedChunks (completedText true chunks.toList) = some chunks := by
  rw [parseCompletedChunks, getlines_completedText, parseParts_toDecimal, AscSet.insertAll_toList]

theorem parseU64_toDecimal (v : UInt64) : parseU64 (toDecimal v.toNat) = some v := by
  rw [parseU64, stoull_toDecimal _ v.toNat_lt, UInt64.ofNat_toNat]

/-- The value of a line whose key ends at its first `'='`. -/
theorem valueAfterEquals_line (key name value : Bytes) (hkey : key = name ++ [equalsSign])
    (h : equalsSign ∉ name) : valueAfterEquals (key ++ value) = value := by
  rw [hkey, List.append_assoc]
  exact valueAfterEquals_append name value h

theorem parseLine_filename (l : TransferCheckpoint) (name : Bytes) :
    parseLine l (ascii "filename=" ++ name) = some { l with originalFilename := name } := by
  have hv :=
    valueAfterEquals_line (ascii "filename=") (ascii "filename") name (by decide) (by decide)
  rw [parseLine, if_pos (startsWith_append _ _), hv]

theorem parseLine_fileSize (l : TransferCheckpoint) (value : Bytes) :
    parseLine l (ascii "file_size=" ++ value) =
      (parseU64 value).map fun v => { l with fileSize := v } := by
  have hv :=
    valueAfterEquals_line (ascii "file_size=") (ascii "file_size") value (by decide) (by decide)
  rw [parseLine, if_neg (not_startsWith_append _ (by decide)), if_pos (startsWith_append _ _), hv]
  cases parseU64 value <;> rfl

theorem parseLine_chunkSize (l : TransferCheckpoint) (value : Bytes) :
    parseLine l (ascii "chunk_size=" ++ value) =
      (parseU64 value).map fun v => { l with chunkSize := v.toUInt32 } := by
  have hv :=
    valueAfterEquals_line (ascii "chunk_size=") (ascii "chunk_size") value (by decide) (by decide)
  rw [parseLine, if_neg (not_startsWith_append _ (by decide)),
    if_neg (not_startsWith_append _ (by decide)), if_pos (startsWith_append _ _), hv]
  cases parseU64 value <;> rfl

theorem parseLine_chunkCount (l : TransferCheckpoint) (value : Bytes) :
    parseLine l (ascii "chunk_count=" ++ value) =
      (parseU64 value).map fun v => { l with totalChunks := v } := by
  have hv :=
    valueAfterEquals_line (ascii "chunk_count=") (ascii "chunk_count") value (by decide) (by decide)
  rw [parseLine, if_neg (not_startsWith_append _ (by decide)),
    if_neg (not_startsWith_append _ (by decide)), if_neg (not_startsWith_append _ (by decide)),
    if_pos (startsWith_append _ _), hv]
  cases parseU64 value <;> rfl

theorem parseLine_completed (l : TransferCheckpoint) (value : Bytes) :
    parseLine l (ascii "completed=" ++ value) =
      (parseCompletedChunks value).map fun chunks => { l with completedChunks := chunks } := by
  have hv :=
    valueAfterEquals_line (ascii "completed=") (ascii "completed") value (by decide) (by decide)
  rw [parseLine, if_neg (not_startsWith_append _ (by decide)),
    if_neg (not_startsWith_append _ (by decide)), if_neg (not_startsWith_append _ (by decide)),
    if_neg (not_startsWith_append _ (by decide)), if_pos (startsWith_append _ _), hv]
  cases parseCompletedChunks value <;> rfl

/-- The lines behind the header, the file name's own lines apart. -/
theorem parseLine_fields (l : TransferCheckpoint) (cp : TransferCheckpoint) :
    [ascii "file_size=" ++ toDecimal cp.fileSize.toNat,
      ascii "chunk_size=" ++ toDecimal cp.chunkSize.toNat,
      ascii "chunk_count=" ++ toDecimal cp.totalChunks.toNat,
      ascii "completed=" ++ completedText true cp.completedChunks.toList].foldlM parseLine l =
    some { cp with originalFilename := l.originalFilename } := by
  have hchunkSize := parseU64_toDecimal cp.chunkSize.toUInt64
  rw [UInt32.toNat_toUInt64] at hchunkSize
  rw [List.foldlM_cons, parseLine_fileSize, parseU64_toDecimal, Option.map_some,
    Option.bind_eq_bind, Option.bind_some,
    List.foldlM_cons, parseLine_chunkSize, hchunkSize, Option.map_some,
    Option.bind_eq_bind, Option.bind_some,
    List.foldlM_cons, parseLine_chunkCount, parseU64_toDecimal, Option.map_some,
    Option.bind_eq_bind, Option.bind_some,
    List.foldlM_cons, parseLine_completed, parseCompletedChunks_completedText, Option.map_some,
    Option.bind_eq_bind, Option.bind_some, List.foldlM_nil, UInt32.toUInt32_toUInt64]
  rfl

theorem not_mem_line (key value : Bytes) (hk : newline ∉ key) (hv : newline ∉ value) :
    newline ∉ key ++ value := by
  rw [List.mem_append, not_or]
  exact ⟨hk, hv⟩

theorem getlines_endLine_append (line rest : Bytes) : getlines newline (endLine line ++ rest) =
    getlines newline (endLine line) ++ getlines newline rest := by
  rw [endLine, List.append_assoc, List.singleton_append, getlines_append newline line rest]

theorem getlines_endLine (line : Bytes) (h : newline ∉ line) :
    getlines newline (endLine line) = [line] :=
  getlines_append_delim newline line [] h

theorem getlines_checkpointText (cp : TransferCheckpoint) :
    getlines newline (checkpointText cp) = kCheckpointHeader ::
      (getlines newline (endLine (ascii "filename=" ++ cp.originalFilename)) ++
        [ascii "file_size=" ++ toDecimal cp.fileSize.toNat,
          ascii "chunk_size=" ++ toDecimal cp.chunkSize.toNat,
          ascii "chunk_count=" ++ toDecimal cp.totalChunks.toNat,
          ascii "completed=" ++ completedText true cp.completedChunks.toList]) := by
  have hd (n : ℕ) : newline ∉ toDecimal n := not_mem_toDecimal n newline (by decide)
  have h1 := not_mem_line (ascii "file_size=") _ (by decide) (hd cp.fileSize.toNat)
  have h2 := not_mem_line (ascii "chunk_size=") _ (by decide) (hd cp.chunkSize.toNat)
  have h3 := not_mem_line (ascii "chunk_count=") _ (by decide) (hd cp.totalChunks.toNat)
  have h4 := not_mem_line (ascii "completed=") _ (by decide)
    (not_mem_completedText true cp.completedChunks.toList newline (by decide) (by decide))
  simp only [checkpointText, getlines_endLine_append]
  rw [getlines_endLine _ h1, getlines_endLine _ h2, getlines_endLine _ h3, getlines_endLine _ h4,
    getlines_endLine kCheckpointHeader (by decide)]
  rfl

/-- Loading a saved text: only the lines the file name makes can go wrong. -/
theorem parseCheckpoint_checkpointText (cp : TransferCheckpoint) :
    parseCheckpoint (checkpointText cp) =
      ((getlines newline (endLine (ascii "filename=" ++ cp.originalFilename))).foldlM
        parseLine {}).map fun l => { cp with originalFilename := l.originalFilename } := by
  rw [parseCheckpoint, getlines_checkpointText]
  simp only [ne_eq, not_true_eq_false, ↓reduceIte, List.foldlM_append, parseLine_fields]
  cases (getlines newline (endLine (ascii "filename=" ++ cp.originalFilename))).foldlM
    parseLine {} <;> rfl

/-- Whatever bytes the file name holds, a saved checkpoint that loads has the sizes and the
completed set it was saved with. -/
theorem fields_of_parseCheckpoint (cp l : TransferCheckpoint)
    (h : parseCheckpoint (checkpointText cp) = some l) :
    l = { cp with originalFilename := l.originalFilename } := by
  rw [parseCheckpoint_checkpointText, Option.map_eq_some_iff] at h
  obtain ⟨l', -, rfl⟩ := h
  rfl

/-- A checkpoint whose file name has no line break is loaded as it was saved. -/
theorem parseCheckpoint_of_no_newline (cp : TransferCheckpoint)
    (h : newline ∉ cp.originalFilename) : parseCheckpoint (checkpointText cp) = some cp := by
  have hl := not_mem_line (ascii "filename=") _ (by decide) h
  rw [parseCheckpoint_checkpointText, getlines_endLine _ hl, List.foldlM_cons,
    parseLine_filename, Option.bind_eq_bind, Option.bind_some, List.foldlM_nil]
  rfl

/-- A line leaves the file name or sets it to its own value. -/
theorem originalFilename_of_parseLine (l l' : TransferCheckpoint) (line : Bytes)
    (h : parseLine l line = some l') : l'.originalFilename = l.originalFilename ∨
      l'.originalFilename = valueAfterEquals line := by
  unfold parseLine at h
  split_ifs at h
  · obtain rfl := Option.some.inj h
    exact Or.inr rfl
  · obtain ⟨v, -, hv⟩ := Option.bind_eq_some_iff.mp h
    obtain rfl := Option.some.inj hv
    exact Or.inl rfl
  · obtain ⟨v, -, hv⟩ := Option.bind_eq_some_iff.mp h
    obtain rfl := Option.some.inj hv
    exact Or.inl rfl
  · obtain ⟨v, -, hv⟩ := Option.bind_eq_some_iff.mp h
    obtain rfl := Option.some.inj hv
    exact Or.inl rfl
  · obtain ⟨v, -, hv⟩ := Option.bind_eq_some_iff.mp h
    obtain rfl := Option.some.inj hv
    exact Or.inl rfl
  · obtain rfl := Option.some.inj h
    exact Or.inl rfl

theorem parseLines_no_newline (lines : List Bytes) (l l' : TransferCheckpoint)
    (hl : ∀ line ∈ lines, newline ∉ line) (hn : newline ∉ l.originalFilename)
    (h : lines.foldlM parseLine l = some l') : newline ∉ l'.originalFilename := by
  induction lines generalizing l with
  | nil =>
    obtain rfl := Option.some.inj h
    exact hn
  | cons line lines ih =>
    rw [List.foldlM_cons, Option.bind_eq_bind, Option.bind_eq_some_iff] at h
    obtain ⟨m, hm, h⟩ := h
    refine ih m (fun x hx => hl x (List.mem_cons_of_mem _ hx)) ?_ h
    rcases originalFilename_of_parseLine l m line hm with he | he
    · rwa [he]
    · rw [he]
      intro hmem
      exact hl line List.mem_cons_self
        ((List.dropWhile_suffix _).subset (List.mem_of_mem_tail hmem))

/-- The loaded file name never holds a line break, so one that does is not recognised. -/
theorem parseCheckpoint_no_newline (text : Bytes) (l : TransferCheckpoint)
    (h : parseCheckpoint text = some l) : newline ∉ l.originalFilename := by
  unfold parseCheckpoint at h
  split at h
  · cases h
  · rename_i line lines hlines
    split_ifs at h
    refine parseLines_no_newline lines {} l (fun x hx => ?_) List.not_mem_nil h
    exact not_mem_of_mem_getlines newline text x (by rw [hlines]; exact List.mem_cons_of_mem _ hx)

theorem checkpointMatchesManifest_iff (cp : TransferCheckpoint) (m : FileManifest) :
    checkpointMatchesManifest cp m = true ↔ cp.originalFilename = m.filename ∧
      cp.fileSize = m.fileSize ∧ cp.chunkSize = m.chunkSize ∧ cp.totalChunks = m.chunkCount ∧
      ∀ i ∈ cp.completedChunks, i < m.chunkCount := by
  unfold checkpointMatchesManifest
  split
  · rename_i h
    constructor
    · intro hf
      cases hf
    · tauto
  · rename_i h
    simp only [not_or, ne_eq, not_not] at h
    simp only [List.all_eq_true, decide_eq_true_eq, h, true_and]
    rfl

theorem createCheckpoint_matches (m : FileManifest) :
    checkpointMatchesManifest (createCheckpointFromManifest m) m = true := by
  rw [checkpointMatchesManifest_iff]
  exact ⟨rfl, rfl, rfl, rfl, fun i hi => absurd hi (AscSet.not_mem_empty i)⟩

theorem mem_missingChunks (cp : TransferCheckpoint) (i : UInt64) :
    i ∈ missingChunks cp ↔ i < cp.totalChunks ∧ i ∉ cp.completedChunks := by
  simp only [missingChunks, List.mem_filter, List.mem_map, List.mem_range, decide_eq_true_eq]
  refine and_congr_left fun _ => ⟨?_, fun h => ⟨i.toNat, UInt64.lt_iff_toNat_lt.mp h,
    UInt64.ofNat_toNat⟩⟩
  rintro ⟨k, hk, rfl⟩
  rw [UInt64.lt_iff_toNat_lt, UInt64.toNat_ofNat']
  exact (Nat.mod_le _ _).trans_lt hk

theorem missingChunks_ascending (cp : TransferCheckpoint) :
    (missingChunks cp).Pairwise (· < ·) := by
  refine List.Pairwise.filter _ (List.pairwise_map.mpr ?_)
  refine List.Pairwise.imp_of_mem ?_ List.pairwise_lt_range
  intro a b ha hb hab
  have hlt := cp.totalChunks.toNat_lt
  rw [List.mem_range] at ha hb
  rw [UInt64.lt_iff_toNat_lt, UInt64.toNat_ofNat_of_lt' (ha.trans hlt),
    UInt64.toNat_ofNat_of_lt' (hb.trans hlt)]
  exact hab

theorem length_missingChunks_le (cp : TransferCheckpoint) :
    (missingChunks cp).length ≤ cp.totalChunks.toNat := by
  refine (List.length_filter_le _ _).trans ?_
  rw [List.length_map, List.length_range]

end PacketBridge
