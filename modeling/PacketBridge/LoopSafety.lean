import PacketBridge.ReceiverLoop

namespace PacketBridge
open Foundations

theorem withChunks_append (cp : TransferCheckpoint) (a b : List UInt64) :
    (cp.withChunks a).withChunks b = cp.withChunks (a ++ b) := by
  induction a generalizing cp with
  | nil => rfl
  | cons i a ih => rw [withChunks_cons, ih, List.cons_append, withChunks_cons]

/-- A write to a stream that is not good leaves the files and the streams. -/
theorem write_bad_safe {env : Env} {out data : Bytes} {I : World → Prop} {w : World}
    (hg : (w.streams out).good = false) (hw : I w) (hlog : I (w.log (.write out data))) :
    Prog.Safe env.exec cutAfter I (call (.write out data)) w
      fun ok w' => ok = false ∧ w' = w.log (.write out data) := by
  have hexec : env.exec (.write out data) w = (false, w.log (.write out data)) := exec_write_bad hg
  apply Prog.Safe.perform
  · intro k
    rw [cutAfter, if_pos hg]
    exact hw
  · rw [hexec]
    exact hlog
  · rw [hexec]
    exact ⟨rfl, rfl⟩

/-- What a turn of the loop has to keep. `H` holds between turns and `M` when a chunk is written
and not yet recorded, for the chunks so far; `E` holds wherever the loop ends, and `I` wherever the
process may be killed. -/
structure LoopRules (env : Env) (m : FileManifest) (out ckpt : Bytes) (cp : TransferCheckpoint)
    (all : List (UInt64 × Bytes)) (I E : World → Prop)
    (H M : List (UInt64 × Bytes) → World → Prop) : Prop where
  ended : ∀ w, E w → I w
  ready : ∀ done w, H done w → E w
  store : ∀ done x (offset : UInt64) w, H done w → PlannedChunk m x →
    offset.toNat = m.chunkOffset x.1 → (offset.toNat < maxOffset → done ++ [x] <+: all) →
    Prog.Safe env.exec cutAfter I (call (.seekp out offset) >>= fun _ => call (.write out x.2)) w
      fun ok w' => (ok = true → offset.toNat < maxOffset ∧ M (done ++ [x]) w') ∧
        (ok = false → E w')
  save : ∀ done w, M done w →
    Prog.Safe env.exec cutAfter I (saveCheckpoint ckpt (cp.withChunks (done.map Prod.fst))) w
      fun ok w' => (ok = true → H done w') ∧ (ok = false → E w')

theorem LoopRules.safe {env : Env} {m : FileManifest} {out ckpt : Bytes} {cp : TransferCheckpoint}
    {all : List (UInt64 × Bytes)} {I E : World → Prop}
    {H M : List (UInt64 × Bytes) → World → Prop} (h : LoopRules env m out ckpt cp all I E H M)
    (hm : m.Planned) (idxs : List UInt64) (done : List (UInt64 × Bytes)) (t : ProgressTracker)
    (s : TcpSocket) (w : World) (ho : s.isOpen = true)
    (hall : done ++ (acceptChunks m idxs s.incoming).chunks = all) (hw : H done w) :
    Prog.Safe env.exec cutAfter I
      (receiveLoop out ckpt m idxs (cp.withChunks (done.map Prod.fst)) t s) w fun _ => E := by
  -- the induction is on the indexes still expected; `done` grows by the chunk of each turn
  induction idxs generalizing done t s w with
  | nil => exact Prog.Safe.pure (h.ended _ (h.ready done w hw)) (h.ready done w hw)
  | cons i is ih =>
    have hend := h.ready done w hw
    rcases receiveLoop_turn hm out ckpt i is (cp.withChunks (done.map Prod.fst)) t s ho with
      ⟨exit, n, k, hloop, -⟩ | ⟨offset, payload, n, k, hi, hoff, hlen, hacc, hloop⟩
    · rw [hloop]
      exact Prog.Safe.pure (h.ended w hend) hend
    · have hfront : offset.toNat < maxOffset → done ++ [(i, payload)] <+: all := by
        intro hnear
        rw [hacc, if_neg (not_le.mpr hnear)] at hall
        refine ⟨(acceptChunks m is (s.incoming.drop n)).chunks, ?_⟩
        rw [← hall, List.append_assoc]
        rfl
      rw [hloop, ← Prog.bind_assoc]
      refine (h.store done (i, payload) offset w hw ⟨hi, hlen⟩ hoff hfront).bind ?_
      intro written w1 hwritten
      cases written with
      | false => exact Prog.Safe.pure (h.ended w1 (hwritten.2 rfl)) (hwritten.2 rfl)
      | true =>
        obtain ⟨hnear, hmid⟩ := hwritten.1 rfl
        rw [if_pos rfl, withChunks_append]
        have hsave := h.save (done ++ [(i, payload)]) w1 hmid
        rw [List.map_append, List.map_singleton] at hsave
        refine hsave.bind ?_
        intro saved w2 hsaved
        cases saved with
        | false => exact Prog.Safe.pure (h.ended w2 (hsaved.2 rfl)) (hsaved.2 rfl)
        | true =>
          rw [if_pos rfl]
          have hnext := ih (done ++ [(i, payload)]) (t.afterChunks m [i]) (s.skip n k) w2 ho (by
            rw [hacc, if_neg (not_le.mpr hnear)] at hall
            rw [← hall, List.append_assoc]
            rfl) (hsaved.1 rfl)
          rwa [List.map_append, List.map_singleton] at hnext

end PacketBridge
