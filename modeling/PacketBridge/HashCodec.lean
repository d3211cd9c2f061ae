import PacketBridge.ByteCodec
import PacketBridge.TcpSocket
import PacketBridge.Sha256

namespace PacketBridge
open Foundations

def kHashPacketMagic : UInt32 := 0x50424853
def kHashPacketSize : ℕ := 4+8+64

/-- Empty when the digest is not 64 lowercase hexadecimal characters. -/
def serializeHashPacket (packet : HashPacket) : Bytes :=
  if isSha256Hex packet.sha256Hex then
    let payload := appendU32 [] kHashPacketMagic
    let payload := appendU64 payload packet.sessionId
    payload ++ packet.sha256Hex
  else []

def deserializeHashPacket (payload : Bytes) : Decode HashPacket := do
  rejectIf (payload.length ≠ kHashPacketSize)
  let (magic, offset) ← readU32 payload 0
  rejectIf (magic ≠ kHashPacketMagic)
  let (sessionId, offset) ← readU64 payload offset
  let sha256Hex := payload.drop offset
  rejectIf (isSha256Hex sha256Hex = false)
  return { sessionId, sha256Hex }

def sendHashPacket (socket : TcpSocket) (packet : HashPacket) : Bool × TcpSocket :=
  let payload := serializeHashPacket packet
  if payload = [] then (false, socket) else socket.sendAll payload

def receiveHashPacket (socket : TcpSocket) : Option HashPacket × TcpSocket :=
  match socket.recvExact kHashPacketSize with
  | (none, socket) => (none, socket)
  | (some payload, socket) => ((deserializeHashPacket payload).toOption, socket)

theorem serializeHashPacket_eq (p : HashPacket) (h : isSha256Hex p.sha256Hex = true) :
    serializeHashPacket p =
      toBE 4 kHashPacketMagic.toNat ++ (toBE 8 p.sessionId.toNat ++ p.sha256Hex) := by
  rw [serializeHashPacket, if_pos h]
  simp only [appendU32_eq, appendU64_eq, List.nil_append, List.append_assoc]

theorem length_of_isSha256Hex (value : Bytes) (h : isSha256Hex value = true) :
    value.length = 64 := by
  rw [isSha256Hex, Bool.and_eq_true, beq_iff_eq] at h
  exact h.1

theorem length_serializeHashPacket (p : HashPacket) (h : isSha256Hex p.sha256Hex = true) :
    (serializeHashPacket p).length = kHashPacketSize := by
  rw [serializeHashPacket_eq p h]
  simp only [List.length_append, length_toBE, length_of_isSha256Hex _ h]
  rfl

theorem deserializeHashPacket_eq (payload : Bytes) (h : payload.length = kHashPacketSize) :
    deserializeHashPacket payload =
      if UInt32.ofNat (ofBE (slice payload 0 4)) ≠ kHashPacketMagic ∨
          isSha256Hex (payload.drop 12) = false then .error .rejected
      else .ok {
        sessionId := UInt64.ofNat (ofBE (slice payload 4 8))
        sha256Hex := payload.drop 12 } := by
  have hl : payload.length = 76 := h
  simp only [deserializeHashPacket, rejectIf, h, ne_eq, not_true_eq_false, ↓reduceIte, ok_bind,
    readU32_eq payload 0 (by omega), readU64_eq payload 4 (by omega), Nat.zero_add, Nat.reduceAdd]
  by_cases hm : UInt32.ofNat (ofBE (slice payload 0 4)) = kHashPacketMagic
  · by_cases hx : isSha256Hex (payload.drop 12) = true
    · simp only [hm, hx, not_true_eq_false, ↓reduceIte, ok_bind, Bool.true_eq_false, or_self]
      rfl
    · simp only [hm, hx, not_true_eq_false, ↓reduceIte, ok_bind, or_true, error_bind]
  · simp only [hm, not_false_eq_true, ↓reduceIte, error_bind, true_or]

theorem deserialize_serializeHashPacket (p : HashPacket) (h : isSha256Hex p.sha256Hex = true) :
    deserializeHashPacket (serializeHashPacket p) = .ok p := by
  have hdrop : (serializeHashPacket p).drop 12 = p.sha256Hex := by
    rw [serializeHashPacket_eq p h, ← List.append_assoc, List.drop_left' (by
      rw [List.length_append, length_toBE, length_toBE])]
  rw [deserializeHashPacket_eq _ (length_serializeHashPacket p h), hdrop,
    serializeHashPacket_eq p h]
  simp only [slice_append_right, slice_append_left, length_toBE, Nat.reduceSub,
    Nat.le_refl, u32_ofBE_toBE, u64_ofBE_toBE, h, ne_eq, not_true_eq_false, Bool.true_eq_false,
    or_self, ↓reduceIte]

/-- Whatever vector is accepted, it carries a digest and is the one the encoder writes. -/
theorem serialize_deserializeHashPacket (payload : Bytes) (p : HashPacket)
    (hd : deserializeHashPacket payload = .ok p) :
    payload.length = kHashPacketSize ∧ isSha256Hex p.sha256Hex = true ∧
      serializeHashPacket p = payload := by
  by_cases hl : payload.length = kHashPacketSize
  · have h76 : payload.length = 76 := hl
    rw [deserializeHashPacket_eq payload hl] at hd
    by_cases hbad : UInt32.ofNat (ofBE (slice payload 0 4)) ≠ kHashPacketMagic ∨
        isSha256Hex (payload.drop 12) = false
    · rw [if_pos hbad] at hd
      cases hd
    · rw [if_neg hbad] at hd
      obtain rfl := Except.ok.inj hd
      rw [not_or, not_not, Bool.not_eq_false] at hbad
      obtain ⟨hm, hhex⟩ := hbad
      refine ⟨hl, hhex, ?_⟩
      rw [serializeHashPacket_eq _ hhex, ← hm]
      simp only [u32_toBE_slice payload 0 (by omega), u64_toBE_slice payload 4 (by omega)]
      rw [slice_append_drop payload 4 8, slice_append_drop payload 0 4, List.drop_zero]
  · rw [deserializeHashPacket, rejectIf_bind, if_pos hl] at hd
    cases hd

def parseHashPacket (bs : Bytes) : Option HashPacket × ℕ :=
  (if kHashPacketSize ≤ bs.length then
    (deserializeHashPacket (bs.take kHashPacketSize)).toOption else none, kHashPacketSize)

theorem receiveHashPacket_reads : TcpSocket.Reads receiveHashPacket parseHashPacket :=
  TcpSocket.recvExact_reads kHashPacketSize fun payload => (deserializeHashPacket payload).toOption

theorem parseHashPacket_settles : TcpSocket.Settles parseHashPacket :=
  TcpSocket.fixed_settles kHashPacketSize fun payload => (deserializeHashPacket payload).toOption

theorem parseHashPacket_append (p : HashPacket) (h : isSha256Hex p.sha256Hex = true)
    (rest : Bytes) :
    parseHashPacket (serializeHashPacket p ++ rest) = (some p, kHashPacketSize) := by
  rw [parseHashPacket, List.take_left' (length_serializeHashPacket p h),
    deserialize_serializeHashPacket p h, List.length_append, length_serializeHashPacket p h,
    if_pos (Nat.le_add_right _ _)]
  rfl

/-- The hash codec is exact on the packets that carry a digest, and the stream reader follows it. -/
theorem hashPacket_codec : TakesEncoding (fun p : HashPacket => isSha256Hex p.sha256Hex = true)
    serializeHashPacket (fun payload => (deserializeHashPacket payload).toOption)
    parseHashPacket where
  decode_encode := by
    intro p hp
    rw [deserialize_serializeHashPacket p hp]
    rfl
  accepted := by
    intro payload p hd
    rw [toOption_eq_some] at hd
    exact (serialize_deserializeHashPacket payload p hd).2
  takes := by
    intro p rest hp
    rw [parseHashPacket_append p hp, length_serializeHashPacket p hp]
  decodes := by
    intro bs p hd
    rw [parseHashPacket] at hd ⊢
    split at hd
    · exact hd
    · cases hd

end PacketBridge
