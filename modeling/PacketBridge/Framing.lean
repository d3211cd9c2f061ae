import PacketBridge.ManifestCodec
import PacketBridge.ChunkCodec
import PacketBridge.HashCodec
import PacketBridge.ChunkPlan

/-! The sender's messages follow each other on one stream with nothing between them. The receiver
finds them again by the sizes that it expects, wherever the stream was cut. -/
namespace PacketBridge
open Foundations

inductive Message where
  | manifest (manifest : FileManifest)
  | header (header : ChunkHeader)
  | payload (payload : Bytes)
  | hash (packet : HashPacket)
  deriving DecidableEq

def Message.bytes : Message → Bytes
  | manifest m => serializeFileManifest m
  | header h => serializeChunkHeader h
  | payload p => p
  | hash p => serializeHashPacket p

/-- The message as it arrives: the digest field of a manifest is not sent. -/
def Message.received : Message → Message
  | manifest m => manifest m.withoutDigest
  | header h => header h
  | payload p => payload p
  | hash p => hash p

def sendMessage (socket : TcpSocket) : Message → Bool × TcpSocket
  | .manifest m => sendFileManifest socket m
  | .header h => sendChunkHeader socket h
  | .payload p => socket.sendAll p
  | .hash p => sendHashPacket socket p

def sendMessages (socket : TcpSocket) : List Message → Bool × TcpSocket
  | [] => (true, socket)
  | m :: ms =>
    match sendMessage socket m with
    | (false, socket) => (false, socket)
    | (true, socket) => sendMessages socket ms

def chunkMessages (chunks : List (ChunkHeader × Bytes)) : List Message :=
  chunks.flatMap fun c => [.header c.1, .payload c.2]

def sessionMessages (manifest : FileManifest) (chunks : List (ChunkHeader × Bytes))
    (packet : HashPacket) : List Message :=
  .manifest manifest :: (chunkMessages chunks ++ [.hash packet])

def messageBytes (ms : List Message) : Bytes := ms.flatMap Message.bytes

/-- `n` times a chunk header and the payload of the size it announces. The messages received so far
come back with whether all of them were. -/
def receiveChunkMessages : ℕ → TcpSocket → List Message × Bool × TcpSocket
  | 0, socket => ([], true, socket)
  | n+1, socket =>
    match receiveChunkHeader socket with
    | (none, socket) => ([], false, socket)
    | (some header, socket) =>
      match socket.recvExact header.payloadSize.toNat with
      | (none, socket) => ([.header header], false, socket)
      | (some payload, socket) =>
        let (ms, ok, socket) := receiveChunkMessages n socket
        (.header header :: .payload payload :: ms, ok, socket)

def receiveMessages (n : ℕ) (socket : TcpSocket) : List Message × Bool × TcpSocket :=
  match receiveFileManifest socket with
  | (none, socket) => ([], false, socket)
  | (some manifest, socket) =>
    match receiveChunkMessages n socket with
    | (ms, false, socket) => (.manifest manifest :: ms, false, socket)
    | (ms, true, socket) =>
      match receiveHashPacket socket with
      | (none, socket) => (.manifest manifest :: ms, false, socket)
      | (some packet, socket) => (.manifest manifest :: (ms ++ [.hash packet]), true, socket)

/-- The messages wholly inside the first `k` bytes, as they arrive. -/
def wholeIn : ℕ → List Message → List Message
  | _, [] => []
  | k, m :: ms => if m.bytes.length ≤ k then m.received :: wholeIn (k-m.bytes.length) ms else []

theorem messageBytes_cons (m : Message) (ms : List Message) :
    messageBytes (m :: ms) = m.bytes ++ messageBytes ms := List.flatMap_cons

theorem messageBytes_append (a b : List Message) :
    messageBytes (a ++ b) = messageBytes a ++ messageBytes b := List.flatMap_append

theorem chunkMessages_cons (c : ChunkHeader × Bytes) (cs : List (ChunkHeader × Bytes)) :
    chunkMessages (c :: cs) = .header c.1 :: .payload c.2 :: chunkMessages cs := rfl

theorem wholeIn_cons_of_le (m : Message) (ms : List Message) (k : ℕ) (h : m.bytes.length ≤ k) :
    wholeIn k (m :: ms) = m.received :: wholeIn (k-m.bytes.length) ms := if_pos h

theorem wholeIn_cons_of_lt (m : Message) (ms : List Message) (k : ℕ) (h : k < m.bytes.length) :
    wholeIn k (m :: ms) = [] := if_neg (not_le.mpr h)

/-- Behind messages that are all inside, the count goes on with the bytes left. -/
theorem wholeIn_append (a b : List Message) (k : ℕ) (h : (messageBytes a).length ≤ k) :
    wholeIn k (a ++ b) = a.map Message.received ++ wholeIn (k-(messageBytes a).length) b := by
  induction a generalizing k with
  | nil => rfl
  | cons m a ih =>
    rw [messageBytes_cons, List.length_append] at h ⊢
    have hfirst : m.bytes.length ≤ k := by omega
    have hrest : (messageBytes a).length ≤ k-m.bytes.length := by omega
    rw [List.cons_append, wholeIn_cons_of_le _ _ _ hfirst, ih _ hrest, List.map_cons,
      List.cons_append, Nat.sub_sub]

/-- Once a message is cut, no later one counts. -/
theorem wholeIn_append_of_lt (a b : List Message) (k : ℕ) (h : k < (messageBytes a).length) :
    wholeIn k (a ++ b) = wholeIn k a := by
  induction a generalizing k with
  | nil => exact absurd h (Nat.not_lt_zero k)
  | cons m a ih =>
    rw [messageBytes_cons, List.length_append] at h
    rw [List.cons_append]
    rcases le_or_gt m.bytes.length k with hfirst | hfirst
    · rw [wholeIn_cons_of_le _ _ _ hfirst, wholeIn_cons_of_le _ _ _ hfirst, ih _ (by omega)]
    · rw [wholeIn_cons_of_lt _ _ _ hfirst, wholeIn_cons_of_lt _ _ _ hfirst]

def Message.Sendable : Message → Prop
  | manifest m => m.Encodable
  | header _ => True
  | payload _ => True
  | hash p => isSha256Hex p.sha256Hex = true

theorem sendMessage_eq (socket : TcpSocket) (m : Message) (h : m.Sendable) :
    sendMessage socket m = socket.sendAll m.bytes := by
  cases m with
  | manifest m =>
    have hne : serializeFileManifest m ≠ [] := by
      rw [serializeFileManifest_eq m h.nameShort]
      exact List.append_ne_nil_of_left_ne_nil (toBE_ne_nil 4 _ (by decide)) _
    exact if_neg hne
  | header h => rfl
  | payload p => rfl
  | hash p =>
    have hne : serializeHashPacket p ≠ [] := by
      rw [serializeHashPacket_eq p h]
      exact List.append_ne_nil_of_left_ne_nil (toBE_ne_nil 4 _ (by decide)) _
    exact if_neg hne

/-- Over a connection that holds, all the messages go out, however many bytes a call takes. -/
theorem sendMessages_sends (ms : List Message) (hm : ∀ m ∈ ms, m.Sendable) (socket : TcpSocket)
    (ho : socket.isOpen = true) (hr : socket.room = none) :
    ∃ socket', sendMessages socket ms = (true, socket') ∧
      socket.Sends (messageBytes ms) true socket' := by
  induction ms generalizing socket with
  | nil => exact ⟨socket, rfl, TcpSocket.Sends.nil socket⟩
  | cons m ms ih =>
    have hfirst := socket.sendAll_sends m.bytes ho
    obtain ⟨hok, hroom⟩ := hfirst.room hr
    rw [hok] at hfirst
    have hpair : socket.sendAll m.bytes = (true, (socket.sendAll m.bytes).2) := Prod.ext hok rfl
    obtain ⟨socket', hrun, hrest⟩ := ih (fun m h => hm m (List.mem_cons_of_mem _ h))
      (socket.sendAll m.bytes).2 (hfirst.isOpen.trans ho) hroom
    refine ⟨socket', ?_, ?_⟩
    · rw [sendMessages, sendMessage_eq socket m (hm m List.mem_cons_self), hpair]
      exact hrun
    · rw [messageBytes_cons]
      exact hfirst.append hrest

namespace TcpSocket

/-- On a stream cut after `k` bytes a receive call gets its message when that lies inside, and
fails otherwise. -/
theorem Reads.cut {α : Type} {receive : TcpSocket → Option α × TcpSocket}
    {parse : Bytes → Option α × ℕ} (hr : Reads receive parse) (hs : Settles parse)
    {frame : Bytes} {x : α} (hf : ∀ rest, parse (frame ++ rest) = (some x, frame.length))
    (s : TcpSocket) (ho : s.isOpen = true) (k : ℕ) (rest : Bytes)
    (hin : s.incoming = (frame ++ rest).take k) :
    (frame.length ≤ k → ∃ j, receive s = (some x, s.skip frame.length j)) ∧
      (k < frame.length → ∃ s', receive s = (none, s')) := by
  obtain ⟨j, hj⟩ := hr s ho
  constructor
  · intro hk
    refine ⟨j, ?_⟩
    rw [hj, hin, List.take_append, List.take_of_length_le hk, hf]
  · intro hk
    -- a message found in the cut stream would be found in the whole one, and is longer than it
    have hnone : (parse s.incoming).1 = none := by
      cases hp : (parse s.incoming).1 with
      | none => rfl
      | some y =>
        have hpre : s.incoming <+: frame ++ rest := by
          rw [hin]
          exact List.take_prefix _ _
        obtain ⟨-, -, hle⟩ := hs.whole hpre hp (hf rest)
        have hlen := hle.length_le
        rw [hin, List.length_take] at hlen
        omega
    exact ⟨_, by rw [hj, hnone]⟩

theorem take_cut (s : TcpSocket) (k n j : ℕ) (frame rest : Bytes) (hn : frame.length = n)
    (hin : s.incoming = (frame ++ rest).take k) :
    (s.skip n j).incoming = rest.take (k-n) := by
  rw [skip_incoming, hin, List.drop_take, ← hn, List.drop_left]

theorem recvExact_cut (s : TcpSocket) (ho : s.isOpen = true) (k : ℕ) (payload rest : Bytes)
    (hin : s.incoming = (payload ++ rest).take k) :
    (payload.length ≤ k → ∃ j, s.recvExact payload.length =
        (some payload, s.skip payload.length j)) ∧
      (k < payload.length → ∃ s', s.recvExact payload.length = (none, s')) := by
  obtain ⟨j, hj⟩ := s.recvExact_eq payload.length ho
  have hlen : s.incoming.length = min k (payload.length+rest.length) := by
    rw [hin, List.length_take, List.length_append]
  constructor
  · intro hk
    refine ⟨j, ?_⟩
    rw [hj, if_pos (by omega), hin, List.take_take, Nat.min_eq_left hk, List.take_left]
  · intro hk
    exact ⟨_, by rw [hj, if_neg (by omega)]⟩

end TcpSocket

/-- The loop over the chunks, on a stream cut after `k` bytes. -/
theorem receiveChunkMessages_cut (chunks : List (ChunkHeader × Bytes))
    (hc : ∀ c ∈ chunks, c.2.length = c.1.payloadSize.toNat) (s : TcpSocket)
    (ho : s.isOpen = true) (k : ℕ) (rest : Bytes)
    (hin : s.incoming = (messageBytes (chunkMessages chunks) ++ rest).take k) :
    ((messageBytes (chunkMessages chunks)).length ≤ k →
      ∃ j, receiveChunkMessages chunks.length s =
        (chunkMessages chunks, true,
          s.skip (messageBytes (chunkMessages chunks)).length j)) ∧
    (k < (messageBytes (chunkMessages chunks)).length →
      ∃ s', receiveChunkMessages chunks.length s =
        (wholeIn k (chunkMessages chunks), false, s')) := by
  induction chunks generalizing s k with
  | nil =>
    constructor
    · intro _
      exact ⟨s.recvs, rfl⟩
    · intro hk
      exact absurd hk (Nat.not_lt_zero k)
  | cons c chunks ih =>
    have hsize : c.2.length = c.1.payloadSize.toNat := hc c List.mem_cons_self
    have hheader : (serializeChunkHeader c.1).length = kChunkHeaderSize :=
      length_serializeChunkHeader c.1
    have hbytes : messageBytes (chunkMessages (c :: chunks)) =
        serializeChunkHeader c.1 ++ (c.2 ++ messageBytes (chunkMessages chunks)) := by
      rw [chunkMessages_cons, messageBytes_cons, messageBytes_cons]
      rfl
    rw [hbytes, List.append_assoc, List.append_assoc] at hin
    obtain ⟨hwhole, hcut⟩ := receiveChunkHeader_reads.cut parseChunkHeader_settles
      (fun rest => by rw [parseChunkHeader_append, hheader]) s ho k _ hin
    rw [hbytes, List.length_append, List.length_append, List.length_cons, chunkMessages_cons]
    by_cases h1 : (serializeChunkHeader c.1).length ≤ k
    · obtain ⟨j, hj⟩ := hwhole h1
      have hin1 := s.take_cut k _ j _ _ rfl hin
      obtain ⟨hwhole2, hcut2⟩ := (s.skip _ j).recvExact_cut ho _ _ _ hin1
      rw [receiveChunkMessages, hj]
      simp only [← hsize]
      by_cases h2 : c.2.length ≤ k-(serializeChunkHeader c.1).length
      · -- both messages are there; the loop goes on with what is left
        obtain ⟨j2, hj2⟩ := hwhole2 h2
        have hin2 := (s.skip _ j).take_cut _ _ j2 _ _ rfl hin1
        obtain ⟨ihw, ihc⟩ := ih (fun c h => hc c (List.mem_cons_of_mem _ h))
          ((s.skip _ j).skip _ j2) ho _ hin2
        rw [hj2]
        dsimp only
        constructor
        · intro hk
          obtain ⟨j3, hj3⟩ := ihw (by omega)
          refine ⟨j3, ?_⟩
          rw [hj3, TcpSocket.skip_skip, TcpSocket.skip_skip]
        · intro hk
          obtain ⟨s', hs'⟩ := ihc (by omega)
          refine ⟨s', ?_⟩
          rw [hs', wholeIn_cons_of_le _ _ _ h1, wholeIn_cons_of_le _ _ _ h2]
          rfl
      · -- the stream ends inside the payload
        obtain ⟨s', hs'⟩ := hcut2 (by omega)
        rw [hs']
        constructor
        · intro hk
          omega
        · intro _
          refine ⟨s', ?_⟩
          rw [wholeIn_cons_of_le _ _ _ h1, wholeIn_cons_of_lt _ _ _ (not_le.mp h2)]
          rfl
    · -- the stream ends inside the header
      obtain ⟨s', hs'⟩ := hcut (by omega)
      rw [receiveChunkMessages, hs']
      constructor
      · intro hk
        omega
      · intro _
        refine ⟨s', ?_⟩
        rw [wholeIn_cons_of_lt _ _ _ (not_le.mp h1)]

theorem map_received_chunkMessages (chunks : List (ChunkHeader × Bytes)) :
    (chunkMessages chunks).map Message.received = chunkMessages chunks := by
  induction chunks with
  | nil => rfl
  | cons c chunks ih =>
    rw [chunkMessages_cons, List.map_cons, List.map_cons, ih]
    rfl

/-- A session received from a stream cut after `k` bytes: the messages inside, and success when
nothing is missing. -/
theorem receiveMessages_cut (m : FileManifest) (hm : m.Encodable)
    (chunks : List (ChunkHeader × Bytes))
    (hc : ∀ c ∈ chunks, c.2.length = c.1.payloadSize.toNat) (p : HashPacket)
    (hp : isSha256Hex p.sha256Hex = true) (s : TcpSocket) (ho : s.isOpen = true) (k : ℕ)
    (hin : s.incoming = (messageBytes (sessionMessages m chunks p)).take k) :
    ((messageBytes (sessionMessages m chunks p)).length ≤ k →
      ∃ s', receiveMessages chunks.length s =
          ((sessionMessages m chunks p).map Message.received, true, s') ∧ s'.incoming = []) ∧
    (k < (messageBytes (sessionMessages m chunks p)).length →
      ∃ s', receiveMessages chunks.length s =
        (wholeIn k (sessionMessages m chunks p), false, s')) := by
  have hbytes : messageBytes (sessionMessages m chunks p) =
      serializeFileManifest m ++
        (messageBytes (chunkMessages chunks) ++ (serializeHashPacket p ++ [])) := by
    rw [sessionMessages, messageBytes_cons, messageBytes_append]
    rfl
  have hmap : (sessionMessages m chunks p).map Message.received =
      .manifest m.withoutDigest :: (chunkMessages chunks ++ [.hash p]) := by
    rw [sessionMessages, List.map_cons, List.map_append, map_received_chunkMessages]
    rfl
  rw [hbytes] at hin
  rw [hbytes, List.length_append, List.length_append, List.append_nil]
  obtain ⟨hwhole, hcut⟩ := receiveFileManifest_reads.cut parseFileManifest_settles
    (parseFileManifest_append m hm) s ho k _ hin
  by_cases h1 : (serializeFileManifest m).length ≤ k
  · obtain ⟨j, hj⟩ := hwhole h1
    have hin1 := s.take_cut k _ j _ _ rfl hin
    obtain ⟨hwhole2, hcut2⟩ := receiveChunkMessages_cut chunks hc (s.skip _ j) ho _ _ hin1
    rw [receiveMessages, hj]
    by_cases h2 : (messageBytes (chunkMessages chunks)).length ≤ k-(serializeFileManifest m).length
    · obtain ⟨j2, hj2⟩ := hwhole2 h2
      have hin2 := (s.skip _ j).take_cut _ _ j2 _ _ rfl hin1
      obtain ⟨hwhole3, hcut3⟩ := receiveHashPacket_reads.cut parseHashPacket_settles
        (fun rest => by rw [parseHashPacket_append p hp, length_serializeHashPacket p hp])
        ((s.skip _ j).skip _ j2) ho _ _ hin2
      simp only [hj2]
      constructor
      · intro hk
        obtain ⟨j3, hj3⟩ := hwhole3 (by omega)
        refine ⟨_, by rw [hj3, hmap], ?_⟩
        rw [TcpSocket.take_cut _ _ _ j3 _ _ rfl hin2, List.take_nil]
      · intro hk
        obtain ⟨s', hs'⟩ := hcut3 (by omega)
        refine ⟨s', ?_⟩
        have hlast : k-(serializeFileManifest m).length-(messageBytes (chunkMessages chunks)).length
            < (Message.hash p).bytes.length := by
          change _ < (serializeHashPacket p).length
          omega
        rw [hs', sessionMessages, wholeIn_cons_of_le _ _ _ h1]
        change _ = (_ :: wholeIn (k-(serializeFileManifest m).length) _, _, _)
        rw [wholeIn_append _ _ _ h2, map_received_chunkMessages, wholeIn_cons_of_lt _ _ _ hlast,
          List.append_nil]
        rfl
    · -- the stream ends inside a chunk
      obtain ⟨s', hs'⟩ := hcut2 (by omega)
      simp only [hs']
      constructor
      · intro hk
        omega
      · intro _
        refine ⟨s', ?_⟩
        rw [sessionMessages, wholeIn_cons_of_le _ _ _ h1]
        change _ = (_ :: wholeIn (k-(serializeFileManifest m).length) _, _, _)
        rw [wholeIn_append_of_lt _ _ _ (not_le.mp h2)]
        rfl
  · -- the stream ends inside the manifest
    obtain ⟨s', hs'⟩ := hcut (by omega)
    rw [receiveMessages, hs']
    constructor
    · intro hk
      omega
    · intro _
      refine ⟨s', ?_⟩
      rw [sessionMessages, wholeIn_cons_of_lt _ _ _ (not_le.mp h1)]

theorem sessionMessages_sendable (m : FileManifest) (hm : m.Encodable)
    (chunks : List (ChunkHeader × Bytes)) (p : HashPacket)
    (hp : isSha256Hex p.sha256Hex = true) :
    ∀ x ∈ sessionMessages m chunks p, x.Sendable := by
  intro x hx
  rw [sessionMessages, List.mem_cons, List.mem_append, List.mem_singleton, chunkMessages,
    List.mem_flatMap] at hx
  obtain rfl | ⟨c, -, hc⟩ | rfl := hx
  · exact hm
  · rw [List.mem_cons, List.mem_singleton] at hc
    obtain rfl | rfl := hc
    · trivial
    · trivial
  · exact hp

/-- However the calls cut the stream, the receiver gets the messages that were sent, the digest
field of the manifest apart, and uses up the stream; of a stream that ends early it gets the
messages wholly inside and fails at the next. -/
theorem session_framing (m : FileManifest) (hv : m.protocolVersion = kProtocolVersion)
    (hn : 1 ≤ m.filename.length) (hs : m.filename.length ≤ kMaxFilenameLength)
    (hcs : m.chunkSize ≠ 0) (hw : m.fileSize.toNat+m.chunkSize.toNat-1 < 2^64)
    (hcount : m.chunkCount.toNat = m.fileSize.toNat ⌈/⌉ m.chunkSize.toNat)
    (chunks : List (ChunkHeader × Bytes))
    (hc : ∀ c ∈ chunks, c.2.length = c.1.payloadSize.toNat) (p : HashPacket)
    (hp : isSha256Hex p.sha256Hex = true) (sender : TcpSocket) (ho : sender.isOpen = true)
    (hroom : sender.room = none) :
    ∃ sender', sendMessages sender (sessionMessages m chunks p) = (true, sender') ∧
      ∃ stream, sender'.sent = sender.sent ++ stream ∧
        (∀ receiver : TcpSocket, receiver.isOpen = true → receiver.incoming = stream →
          ∃ receiver', receiveMessages chunks.length receiver =
              (sessionMessages m.withoutDigest chunks p, true, receiver') ∧
            receiver'.incoming = []) ∧
        ∀ k < stream.length, ∀ receiver : TcpSocket, receiver.isOpen = true →
          receiver.incoming = stream.take k →
          ∃ receiver', receiveMessages chunks.length receiver =
            (wholeIn k (sessionMessages m chunks p), false, receiver') := by
  have hm : m.Encodable := encodable_of_domain m hv hn hs hcs hw hcount
  have hreceived : (sessionMessages m chunks p).map Message.received =
      sessionMessages m.withoutDigest chunks p := by
    rw [sessionMessages, List.map_cons, List.map_append, map_received_chunkMessages]
    rfl
  obtain ⟨sender', hrun, hsends⟩ := sendMessages_sends (sessionMessages m chunks p)
    (sessionMessages_sendable m hm chunks p hp) sender ho hroom
  obtain ⟨part, hsent, -, hwhole⟩ := hsends.sent
  obtain rfl := hwhole rfl
  refine ⟨sender', hrun, _, hsent, ?_, ?_⟩
  · intro receiver hr hin
    rw [← hreceived]
    apply (receiveMessages_cut m hm chunks hc p hp receiver hr _ ?_).1 le_rfl
    rw [hin, List.take_length]
  · intro k hk receiver hr hin
    exact (receiveMessages_cut m hm chunks hc p hp receiver hr k hin).2 hk

def zeroPacket : HashPacket := { sha256Hex := List.replicate 64 48 }

def digestManifest : FileManifest :=
  { smallManifest with fileSha256 := Vector.replicate 32 1 }

theorem session_framing_small :
    ∃ sender', sendMessages {} (sessionMessages digestManifest [({ payloadSize := 1 }, [7])]
        zeroPacket) = (true, sender') ∧
      ∃ stream, sender'.sent = [] ++ stream ∧
        (∀ receiver : TcpSocket, receiver.isOpen = true → receiver.incoming = stream →
          ∃ receiver', receiveMessages 1 receiver =
              (sessionMessages digestManifest.withoutDigest [({ payloadSize := 1 }, [7])] zeroPacket,
                true, receiver') ∧ receiver'.incoming = []) ∧
        ∀ k < stream.length, ∀ receiver : TcpSocket, receiver.isOpen = true →
          receiver.incoming = stream.take k →
          ∃ receiver', receiveMessages 1 receiver =
            (wholeIn k (sessionMessages digestManifest [({ payloadSize := 1 }, [7])] zeroPacket),
              false, receiver') :=
  session_framing digestManifest rfl (by decide) (by decide) (by decide) (by decide) (by decide)
    [({ payloadSize := 1 }, [7])] (by decide) zeroPacket (by decide) {} rfl rfl

/-- A manifest that carries a digest does not come back as it was. -/
theorem digest_not_sent :
    ∃ receiver : TcpSocket, receiver.isOpen = true ∧
      receiver.incoming = messageBytes (sessionMessages digestManifest [] zeroPacket) ∧
      (receiveMessages 0 receiver).1 ≠ sessionMessages digestManifest [] zeroPacket := by
  refine ⟨{ incoming := messageBytes (sessionMessages digestManifest [] zeroPacket) }, rfl, rfl, ?_⟩
  have hm : digestManifest.Encodable := ⟨rfl, by decide, by decide, by decide, by decide⟩
  have hnone : ∀ c ∈ ([] : List (ChunkHeader × Bytes)), c.2.length = c.1.payloadSize.toNat := by
    intro c h
    cases h
  obtain ⟨s', hs', -⟩ := (receiveMessages_cut digestManifest hm [] hnone zeroPacket (by decide)
    { incoming := messageBytes (sessionMessages digestManifest [] zeroPacket) } rfl _
    List.take_length.symm).1 le_rfl
  rw [List.length_nil] at hs'
  rw [hs']
  change (sessionMessages digestManifest [] zeroPacket).map Message.received ≠ _
  decide

end PacketBridge
