import PacketBridge.Listener

namespace PacketBridge
open Foundations

/-- The fields of an announcement as the protocol describes them, in the text they have on the
wire. -/
structure Announcement where
  version : Bytes
  name : Bytes
  port : Bytes
  versionDigits : Digits version
  versionValue : ofDecimal version = kProtocolVersion.toNat
  nameLength : 1 ≤ name.length ∧ name.length ≤ kMaxPeerNameLength
  nameBar : bar ∉ name
  portDigits : Digits port
  portValue : 1 ≤ ofDecimal port ∧ ofDecimal port ≤ 65535

namespace Announcement

/-- `PACKETBRIDGE_DISCOVER|protocol_version|peer_name|transfer_port`. -/
def text (a : Announcement) : Bytes :=
  kDiscoveryMarker ++ bar :: (a.version ++ bar :: (a.name ++ bar :: a.port))

def peer (a : Announcement) (senderIp : Bytes) (seen : TimePoint) : Peer :=
  { name := a.name
    ipAddress := senderIp
    transferPort := UInt16.ofNat (ofDecimal a.port)
    lastSeen := seen
    protocolVersion := UInt16.ofNat (ofDecimal a.version) }

theorem bar_not_mem_marker : bar ∉ kDiscoveryMarker := by decide

variable (a : Announcement)

theorem splitMessage_text :
    splitMessage a.text = [kDiscoveryMarker, a.version, a.name, a.port] := by
  rw [splitMessage, text, getlines_append_delim bar _ _ bar_not_mem_marker,
    getlines_append_delim bar _ _ a.versionDigits.bar_not_mem,
    getlines_append_delim bar _ _ a.nameBar,
    getlines_last bar _ a.portDigits.bar_not_mem a.portDigits.1]

theorem splitMessage_text_bar :
    splitMessage (a.text ++ [bar]) = [kDiscoveryMarker, a.version, a.name, a.port] := by
  simp only [splitMessage, text, List.append_assoc, List.cons_append]
  rw [getlines_append_delim bar _ _ bar_not_mem_marker,
    getlines_append_delim bar _ _ a.versionDigits.bar_not_mem,
    getlines_append_delim bar _ _ a.nameBar,
    getlines_append_delim bar _ _ a.portDigits.bar_not_mem, getlines_nil]

theorem getLast?_text : ∃ b ∈ a.port, a.text.getLast? = some b := by
  obtain ⟨b, hb⟩ := Option.ne_none_iff_exists'.mp (mt List.getLast?_eq_none_iff.mp a.portDigits.1)
  refine ⟨b, List.mem_of_getLast? hb, ?_⟩
  have hlast (front : Bytes) (rest : Bytes) (hr : rest.getLast? = some b) :
      (front ++ bar :: rest).getLast? = some b := by
    rw [List.getLast?_append, List.getLast?_cons, hr]
    rfl
  exact hlast _ _ (hlast _ _ (hlast _ _ hb))

theorem text_ne_append_bar (a' : Announcement) : a.text ≠ a'.text ++ [bar] := by
  intro h
  obtain ⟨b, hb, hlast⟩ := a.getLast?_text
  rw [h, List.getLast?_append, List.getLast?_singleton, Option.some_or] at hlast
  obtain rfl := Option.some.inj hlast
  exact a.portDigits.bar_not_mem hb

end Announcement

theorem parse_fields {message senderIp marker version name port : Bytes} {seen : TimePoint}
    {peer : Peer} (hsplit : splitMessage message = [marker, version, name, port]) :
    parseDiscoveryMessage message senderIp seen = some peer ↔
      ∃ a : Announcement, marker = kDiscoveryMarker ∧ version = a.version ∧ name = a.name ∧
        port = a.port ∧ peer = a.peer senderIp seen := by
  have hversion := parseUnsigned_eq_some_iff version kProtocolVersion.toUInt64
  have hname := isValidPeerName_iff name
  rw [parseDiscoveryMessage, hsplit]
  constructor
  · intro h
    -- the guards of the parser, one after the other, are the clauses of the form
    simp only at h
    split_ifs at h with hm hv hn
    rw [not_not] at hm hv
    rw [Bool.not_eq_false] at hn
    obtain ⟨hvd, hvv⟩ := hversion.mp hv
    obtain ⟨h1, h64, hbar⟩ := hname.mp hn
    cases hp : parseUnsigned port with
    | none =>
      rw [hp] at h
      cases h
    | some transferPort =>
      rw [hp] at h
      simp only at h
      split_ifs at h with hrange
      obtain ⟨hpd, hpv⟩ := (parseUnsigned_eq_some_iff port transferPort).mp hp
      rw [not_or, gt_iff_lt, UInt64.lt_iff_toNat_lt, not_lt] at hrange
      have hpos : transferPort.toNat ≠ 0 := fun h0 => hrange.1 (UInt64.toNat_inj.mp h0)
      have hmax : transferPort.toNat ≤ 65535 := hrange.2
      refine ⟨⟨version, name, port, hvd, hvv, ⟨h1, h64⟩, hbar, hpd, by omega⟩, hm, rfl, rfl, rfl, ?_⟩
      rw [← Option.some.inj h, Announcement.peer]
      congr 1
      · rw [hpv]
        rfl
      · rw [hvv]
        rfl
  · rintro ⟨a, rfl, rfl, rfl, rfl, rfl⟩
    have hvalue : (UInt64.ofNat (ofDecimal a.port)).toNat = ofDecimal a.port := by
      have hmax := a.portValue.2
      apply UInt64.toNat_ofNat_of_lt'
      change ofDecimal a.port < 2^64
      omega
    have hport : parseUnsigned a.port = some (UInt64.ofNat (ofDecimal a.port)) :=
      (parseUnsigned_eq_some_iff _ _).mpr ⟨a.portDigits, hvalue.symm⟩
    have hrange : ¬ (UInt64.ofNat (ofDecimal a.port) = 0 ∨
        UInt64.ofNat (ofDecimal a.port) > 65535) := by
      rw [not_or, ← UInt64.toNat_inj, gt_iff_lt, UInt64.lt_iff_toNat_lt, hvalue, not_lt]
      exact ⟨Nat.ne_of_gt a.portValue.1, a.portValue.2⟩
    simp only [hversion.mpr ⟨a.versionDigits, a.versionValue⟩,
      hname.mpr ⟨a.nameLength.1, a.nameLength.2, a.nameBar⟩, hport, hrange, ne_eq,
      not_true_eq_false, Bool.true_eq_false, ↓reduceIte]
    rw [Announcement.peer, a.versionValue]
    congr 2
    apply UInt16.toNat_inj.mp
    rw [UInt64.toNat_toUInt16, hvalue, UInt16.toNat_ofNat']

/-- What the parser accepts: announcements, and announcements with one delimiter too many. -/
theorem parseDiscoveryMessage_eq_some_iff (message senderIp : Bytes) (seen : TimePoint)
    (peer : Peer) : parseDiscoveryMessage message senderIp seen = some peer ↔
      ∃ a : Announcement, (message = a.text ∨ message = a.text ++ [bar]) ∧
        peer = a.peer senderIp seen := by
  constructor
  · intro h
    have hfour : ∃ marker version name port,
        splitMessage message = [marker, version, name, port] := by
      rw [parseDiscoveryMessage] at h
      split at h
      · rename_i hsplit
        exact ⟨_, _, _, _, hsplit⟩
      · cases h
    obtain ⟨marker, version, name, port, hsplit⟩ := hfour
    obtain ⟨a, rfl, rfl, rfl, rfl, hpeer⟩ := (parse_fields hsplit).mp h
    refine ⟨a, ?_, hpeer⟩
    -- joining the four records gives the message back, up to a delimiter at its end
    have hjoin := intercalate_getlines bar message
    rw [splitMessage] at hsplit
    rw [hsplit] at hjoin
    apply hjoin.imp
    · intro hmessage
      rw [hmessage, Announcement.text]
      simp [List.intercalate]
    · intro hmessage
      rw [hmessage, Announcement.text]
      simp [List.intercalate]
  · rintro ⟨a, hmessage | hmessage, rfl⟩
    · rw [hmessage, parse_fields a.splitMessage_text]
      exact ⟨a, rfl, rfl, rfl, rfl, rfl⟩
    · rw [hmessage, parse_fields a.splitMessage_text_bar]
      exact ⟨a, rfl, rfl, rfl, rfl, rfl⟩

/-- The parser accepts exactly the announcements of the documented form, except that it takes one
with a delimiter behind it for the announcement. -/
theorem discoveryGrammar_exact_iff (message : Bytes) :
    (∀ senderIp seen peer, parseDiscoveryMessage message senderIp seen = some peer ↔
      ∃ a : Announcement, message = a.text ∧ peer = a.peer senderIp seen) ↔
    ¬ ∃ a : Announcement, message = a.text ++ [bar] := by
  constructor
  · rintro h ⟨a, hbar⟩
    have hparse := (parseDiscoveryMessage_eq_some_iff message [] 0 (a.peer [] 0)).mpr
      ⟨a, Or.inr hbar, rfl⟩
    obtain ⟨a', htext, -⟩ := (h [] 0 (a.peer [] 0)).mp hparse
    exact a'.text_ne_append_bar a (htext.symm.trans hbar)
  · intro h senderIp seen peer
    rw [parseDiscoveryMessage_eq_some_iff]
    constructor
    · rintro ⟨a, hmessage | hbar, hpeer⟩
      · exact ⟨a, hmessage, hpeer⟩
      · exact absurd ⟨a, hbar⟩ h
    · rintro ⟨a, hmessage, hpeer⟩
      exact ⟨a, Or.inl hmessage, hpeer⟩

def bobAnnouncement : Announcement where
  version := ascii "1"
  name := ascii "bob"
  port := ascii "9000"
  versionDigits := ⟨by decide, List.all_eq_true.mp (by decide)⟩
  versionValue := by decide
  nameLength := by decide
  nameBar := by decide
  portDigits := ⟨by decide, List.all_eq_true.mp (by decide)⟩
  portValue := by decide

/-- Five fields, the last of them empty, are accepted. -/
theorem trailing_delimiter_accepted :
    parseDiscoveryMessage (ascii "PACKETBRIDGE_DISCOVER|1|bob|9000|") (ascii "10.0.0.2") 0 =
      some (bobAnnouncement.peer (ascii "10.0.0.2") 0) ∧
    ¬ ∃ a : Announcement, ascii "PACKETBRIDGE_DISCOVER|1|bob|9000|" = a.text := by
  have htext : ascii "PACKETBRIDGE_DISCOVER|1|bob|9000|" = bobAnnouncement.text ++ [bar] := by
    decide
  refine ⟨by decide, ?_⟩
  rintro ⟨a, ha⟩
  exact a.text_ne_append_bar bobAnnouncement (ha.symm.trans htext)

theorem safePeerName_valid (name : Bytes) : 1 ≤ (safePeerName name).length ∧
    (safePeerName name).length ≤ kMaxPeerNameLength ∧ bar ∉ safePeerName name := by
  rw [safePeerName]
  by_cases hbad : name = [] ∨ bar ∈ name
  · rw [if_pos hbad]
    decide
  · rw [if_neg hbad]
    rw [not_or] at hbad
    obtain ⟨hne, hbar⟩ := hbad
    have hpos : 1 ≤ name.length := List.length_pos_iff.mpr hne
    by_cases hlong : name.length > kMaxPeerNameLength
    · rw [if_pos hlong, List.length_take, Nat.min_eq_left hlong.le]
      exact ⟨by decide, le_rfl, fun h => hbar (List.mem_of_mem_take h)⟩
    · rw [if_neg hlong]
      exact ⟨hpos, not_lt.mp hlong, hbar⟩

def broadcast (name : Bytes) (port : UInt16) (h : port ≠ 0) : Announcement where
  version := toDecimal kProtocolVersion.toNat
  name := safePeerName name
  port := toDecimal port.toNat
  versionDigits := digits_toDecimal _
  versionValue := ofDecimal_toDecimal _
  nameLength := ⟨(safePeerName_valid name).1, (safePeerName_valid name).2.1⟩
  nameBar := (safePeerName_valid name).2.2
  portDigits := digits_toDecimal _
  portValue := by
    rw [ofDecimal_toDecimal]
    have hpos : port.toNat ≠ 0 := fun h0 => h (UInt16.toNat_inj.mp h0)
    have hmax := port.toNat_lt
    omega

theorem text_broadcast (name : Bytes) (port : UInt16) (h : port ≠ 0) :
    (broadcast name port h).text = buildDiscoveryMessage (safePeerName name) port := by
  have hbar : ascii "|" = [bar] := by decide
  simp only [Announcement.text, broadcast, buildDiscoveryMessage, hbar, List.append_assoc,
    List.cons_append, List.nil_append]

theorem peer_broadcast (name : Bytes) (port : UInt16) (h : port ≠ 0) (ip : Bytes)
    (seen : TimePoint) : (broadcast name port h).peer ip seen =
      { name := safePeerName name, ipAddress := ip, transferPort := port, lastSeen := seen
        protocolVersion := kProtocolVersion } := by
  simp only [Announcement.peer, broadcast, ofDecimal_toDecimal, UInt16.ofNat_toNat]

/-- A broadcaster's announcement is parsed as what it announces. -/
theorem parse_buildDiscoveryMessage (name : Bytes) (port : UInt16) (h : port ≠ 0) (ip : Bytes)
    (seen : TimePoint) :
    parseDiscoveryMessage (buildDiscoveryMessage (safePeerName name) port) ip seen =
      some { name := safePeerName name, ipAddress := ip, transferPort := port, lastSeen := seen
             protocolVersion := kProtocolVersion } := by
  rw [parseDiscoveryMessage_eq_some_iff, ← text_broadcast name port h, ← peer_broadcast name port h]
  exact ⟨_, Or.inl rfl, rfl⟩

theorem length_toDecimal_port (port : UInt16) : (toDecimal port.toNat).length ≤ 5 := by
  rw [toDecimal]
  split
  · decide
  · rw [List.length_map, List.length_reverse]
    have hlt := port.toNat_lt
    exact (Nat.digits_length_le_iff (by decide) _).mpr (by omega)

/-- It fits into the buffer of the listener's loop. -/
theorem length_buildDiscoveryMessage_le (name : Bytes) (port : UInt16) :
    (buildDiscoveryMessage (safePeerName name) port).length ≤ 1024 := by
  have hname := (safePeerName_valid name).2.1
  have hport := length_toDecimal_port port
  have hfixed : (kDiscoveryMarker ++ ascii "|" ++ toDecimal kProtocolVersion.toNat ++
      ascii "|").length = 24 := by decide
  have hbar : (ascii "|").length = 1 := by decide
  have hmax : kMaxPeerNameLength = 64 := rfl
  rw [buildDiscoveryMessage]
  simp only [List.length_append] at hfixed ⊢
  omega

/-- Whatever name a broadcaster is given, its announcement is understood by every listener, and
announcements of different names or ports are different messages. -/
theorem announcement_understood (name : Bytes) (port : UInt16) (h : port ≠ 0) :
    (∀ ip seen, parseDiscoveryMessage (buildDiscoveryMessage (safePeerName name) port) ip seen =
      some { name := safePeerName name, ipAddress := ip, transferPort := port, lastSeen := seen
             protocolVersion := kProtocolVersion }) ∧
    (∀ ip seen now, Iteration.parsed {
        datagram := some {
          data := buildDiscoveryMessage (safePeerName name) port, host := ip, seen }, now } =
      some { name := safePeerName name, ipAddress := ip, transferPort := port, lastSeen := seen
             protocolVersion := kProtocolVersion }) ∧
    ∀ name' (port' : UInt16), port' ≠ 0 → safePeerName name ≠ safePeerName name' ∨ port ≠ port' →
      buildDiscoveryMessage (safePeerName name) port ≠
        buildDiscoveryMessage (safePeerName name') port' := by
  have hparse := parse_buildDiscoveryMessage name port h
  refine ⟨hparse, ?_, ?_⟩
  · intro ip seen now
    have hwhole : (buildDiscoveryMessage (safePeerName name) port).take 1024 =
        buildDiscoveryMessage (safePeerName name) port :=
      List.take_of_length_le (length_buildDiscoveryMessage_le name port)
    rw [Iteration.parsed, Option.bind_some, hwhole, hparse]
  · intro name' port' h' hdiff heq
    -- one message is parsed as one peer
    have hsame := parse_buildDiscoveryMessage name' port' h' [] 0
    rw [← heq, hparse, Option.some.injEq, Peer.mk.injEq] at hsame
    rcases hdiff with hname | hport
    · exact hname hsame.1
    · exact hport hsame.2.2.1

theorem announcement_understood_bar :
    parseDiscoveryMessage (buildDiscoveryMessage (safePeerName (ascii "a|b")) 9000)
      (ascii "10.0.0.2") 0 =
      some { name := ascii "packetbridge-node", ipAddress := ascii "10.0.0.2", transferPort := 9000
             lastSeen := 0, protocolVersion := kProtocolVersion } :=
  (announcement_understood (ascii "a|b") 9000 (by decide)).1 (ascii "10.0.0.2") 0

end PacketBridge
