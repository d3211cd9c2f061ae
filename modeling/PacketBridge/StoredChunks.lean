import PacketBridge.ReceiverRun

namespace PacketBridge
open Foundations

variable {m : FileManifest}

theorem storeChunks_cons (m : FileManifest) (content : Bytes) (x : UInt64 × Bytes)
    (chunks : List (UInt64 × Bytes)) : storeChunks m content (x :: chunks) =
      storeChunks m (writeAt content (m.chunkOffset x.1) x.2) chunks := rfl

theorem length_le_storeChunks (m : FileManifest) (content : Bytes)
    (chunks : List (UInt64 × Bytes)) : content.length ≤ (storeChunks m content chunks).length := by
  induction chunks generalizing content with
  | nil => exact le_rfl
  | cons x chunks ih =>
    calc content.length ≤ (writeAt content (m.chunkOffset x.1) x.2).length :=
          length_le_writeAt _ _ _
      _ ≤ (storeChunks m content (x :: chunks)).length := ih _

theorem PlannedChunk.end_le (hm : m.Planned) {x : UInt64 × Bytes} (hx : PlannedChunk m x) :
    m.chunkOffset x.1+x.2.length ≤ m.fileSize.toNat := by
  rw [hx.2]
  exact hm.chunk_end_le hx.1

theorem length_storeChunks_le (hm : m.Planned) (content : Bytes)
    (chunks : List (UInt64 × Bytes)) (hc : ∀ x ∈ chunks, PlannedChunk m x)
    (hlen : content.length ≤ m.fileSize.toNat) :
    (storeChunks m content chunks).length ≤ m.fileSize.toNat := by
  induction chunks generalizing content with
  | nil => exact hlen
  | cons x chunks ih =>
    rw [storeChunks_cons]
    apply ih
    · intro y hy
      exact hc y (List.mem_cons_of_mem _ hy)
    · apply length_writeAt_le _ _ _ _ hlen
      exact (hc x List.mem_cons_self).end_le hm

/-- Bytes beside the ranges of all the chunks stay as they are. -/
theorem getElem?_storeChunks_beside (content : Bytes) (chunks : List (UInt64 × Bytes)) (pos : ℕ)
    (hpos : pos < content.length)
    (hd : ∀ x ∈ chunks, pos < m.chunkOffset x.1 ∨ m.chunkOffset x.1+x.2.length ≤ pos) :
    (storeChunks m content chunks)[pos]? = content[pos]? := by
  induction chunks generalizing content with
  | nil => rfl
  | cons x chunks ih =>
    have hlong := length_le_writeAt content (m.chunkOffset x.1) x.2
    rw [storeChunks_cons, ih _ (by omega) fun y hy => hd y (List.mem_cons_of_mem _ hy)]
    exact getElem?_writeAt_outside _ _ _ _ hpos (hd x List.mem_cons_self)

/-- The ranges of two different chunks of the plan do not meet. -/
theorem chunk_ranges_apart (m : FileManifest) {i j : UInt64} (hne : i ≠ j) (pos : ℕ)
    (hlow : m.chunkOffset i ≤ pos) (hhigh : pos < m.chunkOffset i+m.chunkLength i) :
    pos < m.chunkOffset j ∨ m.chunkOffset j+m.chunkLength j ≤ pos := by
  rcases lt_or_gt_of_ne hne with hij | hji
  · have := m.chunk_end_le_chunkOffset hij
    left
    omega
  · have := m.chunk_end_le_chunkOffset hji
    right
    omega

/-- A chunk already there stays when other chunks are written. -/
theorem holdsAt_storeChunks_beside (content : Bytes)
    (chunks : List (UInt64 × Bytes)) (hc : ∀ x ∈ chunks, PlannedChunk m x) (i : UInt64)
    (payload : Bytes) (hlen : payload.length = m.chunkLength i)
    (hi : i ∉ chunks.map Prod.fst) (h : HoldsAt content (m.chunkOffset i) payload) :
    HoldsAt (storeChunks m content chunks) (m.chunkOffset i) payload := by
  intro k hk
  have hn : payload ≠ [] := List.ne_nil_of_length_pos (Nat.zero_lt_of_lt hk)
  have hend := holdsAt_length _ _ _ h hn
  rw [getElem?_storeChunks_beside content chunks _ (by omega), h k hk]
  intro x hx
  have hne : i ≠ x.1 := by
    rintro rfl
    exact hi (List.mem_map_of_mem hx)
  rw [(hc x hx).2]
  exact chunk_ranges_apart m hne _ (Nat.le_add_right _ _) (by omega)

/-- Every chunk written stands at its place, when no index comes twice. -/
theorem holdsAt_storeChunks (content : Bytes) (chunks : List (UInt64 × Bytes))
    (hc : ∀ x ∈ chunks, PlannedChunk m x) (hnd : (chunks.map Prod.fst).Nodup)
    (x : UInt64 × Bytes) (hx : x ∈ chunks) :
    HoldsAt (storeChunks m content chunks) (m.chunkOffset x.1) x.2 := by
  induction chunks generalizing content with
  | nil => cases hx
  | cons y chunks ih =>
    rw [List.map_cons, List.nodup_cons] at hnd
    have hrest : ∀ z ∈ chunks, PlannedChunk m z := by
      intro z hz
      exact hc z (List.mem_cons_of_mem _ hz)
    rw [storeChunks_cons]
    rcases List.mem_cons.mp hx with rfl | hx
    · apply holdsAt_storeChunks_beside _ _ hrest _ _ (hc x List.mem_cons_self).2 hnd.1
      exact holdsAt_writeAt _ _ _
    · exact ih _ hrest hnd.2 hx

theorem resumed_congr {files files' : Files} (m : FileManifest) {out : Bytes}
    (hout : files' out = files out)
    (hckpt : files' (checkpointPathForOutput out) = files (checkpointPathForOutput out)) :
    resumed files' m out = resumed files m out := by
  rw [resumed, resumed, hout, hckpt]

/-- The verdict when the announced hash is that of the output. -/
theorem verdict_of_announced (m : FileManifest) (out content rest : Bytes) (p : HashPacket)
    (hp : (parseHashPacket rest).1 = some p) (hs : p.sessionId = m.sessionId)
    (hh : p.sha256Hex = sha256File content) : verdict m out content rest =
      .complete out (checkpointPathForOutput out) m.fileSize true := by
  rw [verdict, hp]
  exact (if_neg (not_not.mpr hs)).trans (if_pos hh.symm)

end PacketBridge
