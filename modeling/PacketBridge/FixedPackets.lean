import PacketBridge.ChunkCodec
import PacketBridge.HashCodec
import PacketBridge.Sha256Stream

namespace PacketBridge
open Foundations

def digestPacket (sessionId : UInt64) (pieces : List Bytes) : HashPacket :=
  { sessionId, sha256Hex := (pieces.foldl Sha256.update {}).finalHex }

theorem isSha256Hex_digestPacket (sessionId : UInt64) (pieces : List Bytes) :
    isSha256Hex (digestPacket sessionId pieces).sha256Hex = true := by
  have hhex := isSha256Hex_finalHex (pieces.foldl Sha256.update {})
  simpa only [digestPacket] using hhex

theorem serializeChunkHeader_ne_nil (h : ChunkHeader) : serializeChunkHeader h ≠ [] := by
  apply List.ne_nil_of_length_pos
  rw [length_serializeChunkHeader]
  decide

theorem serializeHashPacket_ne_nil (p : HashPacket) (h : isSha256Hex p.sha256Hex = true) :
    serializeHashPacket p ≠ [] := by
  apply List.ne_nil_of_length_pos
  rw [length_serializeHashPacket p h]
  decide

/-- A header has 32 bytes and a hash packet 76, so no vector is both. -/
theorem accepted_apart (payload : Bytes) (h : ChunkHeader) (p : HashPacket)
    (hh : deserializeChunkHeader payload = .ok h) : deserializeHashPacket payload ≠ .ok p := by
  intro hp
  have h32 := (serialize_deserializeChunkHeader payload h hh).1
  have h76 := (serialize_deserializeHashPacket payload p hp).1
  rw [h32] at h76
  revert h76
  decide

/-- Both codecs are bijections onto the vectors they accept, and these are different vectors. -/
theorem fixedPackets_exact :
    (∀ h : ChunkHeader, serializeChunkHeader h ≠ [] ∧
      deserializeChunkHeader (serializeChunkHeader h) = .ok h) ∧
    (∀ sessionId pieces, serializeHashPacket (digestPacket sessionId pieces) ≠ [] ∧
      deserializeHashPacket (serializeHashPacket (digestPacket sessionId pieces)) =
        .ok (digestPacket sessionId pieces)) ∧
    (∀ payload h, deserializeChunkHeader payload = .ok h → payload = serializeChunkHeader h) ∧
    (∀ payload p, deserializeHashPacket payload = .ok p → payload = serializeHashPacket p) ∧
    (∀ payload payload' h, deserializeChunkHeader payload = .ok h →
      deserializeChunkHeader payload' = .ok h → payload = payload') ∧
    (∀ payload payload' p, deserializeHashPacket payload = .ok p →
      deserializeHashPacket payload' = .ok p → payload = payload') ∧
    ∀ payload h p, ¬ (deserializeChunkHeader payload = .ok h ∧
      deserializeHashPacket payload = .ok p) := by
  refine ⟨?_, ?_, ?_, ?_, ?_, ?_, ?_⟩
  · intro h
    exact ⟨serializeChunkHeader_ne_nil h, deserialize_serializeChunkHeader h⟩
  · intro sessionId pieces
    have hhex := isSha256Hex_digestPacket sessionId pieces
    exact ⟨serializeHashPacket_ne_nil _ hhex, deserialize_serializeHashPacket _ hhex⟩
  · intro payload h hd
    exact (serialize_deserializeChunkHeader payload h hd).2.symm
  · intro payload p hd
    exact (serialize_deserializeHashPacket payload p hd).2.2.symm
  · intro payload payload' h hd hd'
    apply chunkHeader_codec.accepted_injective
    · exact (toOption_eq_some _ h).mpr hd
    · exact (toOption_eq_some _ h).mpr hd'
  · intro payload payload' p hd hd'
    apply hashPacket_codec.accepted_injective
    · exact (toOption_eq_some _ p).mpr hd
    · exact (toOption_eq_some _ p).mpr hd'
  · rintro payload h p ⟨hh, hp⟩
    exact accepted_apart payload h p hh hp

end PacketBridge
