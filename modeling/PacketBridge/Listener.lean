import PacketBridge.Discovery
import Mathlib.Logic.Function.Basic
import Mathlib.Data.List.Infix

/-! The listener's loop and its table of peers. The printing of the table is left out. -/
namespace PacketBridge
open Foundations

def peerKey (peer : Peer) : Bytes :=
  peer.ipAddress ++ ascii ":" ++ toDecimal peer.transferPort.toNat

def looksLikeLoopback (ipAddress : Bytes) : Bool :=
  ipAddress = ascii "127.0.0.1" ∨ ipAddress = ascii "::1"

abbrev PeerTable := Bytes → Option Peer

def staleAfter : ℤ := 10*1000000000

def removeStalePeers (peers : PeerTable) (now : TimePoint) : PeerTable :=
  fun key => (peers key).filter fun peer => ¬ now-peer.lastSeen > staleAfter

/-- A datagram, the host it came from, and the clock reading taken when it is parsed. -/
structure Datagram where
  data : Bytes
  host : Bytes
  seen : TimePoint

/-- One turn of the loop; without a datagram the wait has timed out or failed. -/
structure Iteration where
  datagram : Option Datagram
  now : TimePoint

/-- The buffer of the loop takes the first 1024 bytes of a datagram. -/
def Iteration.parsed (it : Iteration) : Option Peer :=
  it.datagram.bind fun d => parseDiscoveryMessage (d.data.take 1024) d.host d.seen

def isOwnPacket (localHostname : Bytes) (peer : Peer) : Bool :=
  localHostname ≠ [] ∧ peer.name = localHostname ∧ looksLikeLoopback peer.ipAddress

def listenerStep (localHostname : Bytes) (peers : PeerTable) (it : Iteration) : PeerTable :=
  match it.parsed with
  | some peer =>
    -- this `continue` skips the removal of stale peers as well
    if isOwnPacket localHostname peer then peers
    else removeStalePeers (Function.update peers (peerKey peer) (some peer)) it.now
  | none => removeStalePeers peers it.now

def listen (localHostname : Bytes) (its : List Iteration) : PeerTable :=
  its.foldl (listenerStep localHostname) fun _ => none

/-- The announcement of a turn that parsed and was not filtered. -/
def Iteration.announced (localHostname : Bytes) (it : Iteration) : Option Peer :=
  it.parsed.filter fun peer => !isOwnPacket localHostname peer

def Iteration.Own (localHostname : Bytes) (it : Iteration) : Prop :=
  ∃ peer, it.parsed = some peer ∧ isOwnPacket localHostname peer = true

def latest (localHostname : Bytes) (its : List Iteration) (ip : Bytes) (port : UInt16) :
    Option Peer :=
  ((its.filterMap (Iteration.announced localHostname)).filter fun peer =>
    peer.ipAddress = ip ∧ peer.transferPort = port).getLast?

def Live (now : TimePoint) (peer : Peer) : Prop := now-peer.lastSeen ≤ staleAfter

instance (now : TimePoint) (peer : Peer) : Decidable (Live now peer) :=
  inferInstanceAs (Decidable (_ ≤ _))

/-- What the table is for: it holds the live latest announcements, each under its key, and
nothing else. -/
def ExactlyLive (localHostname : Bytes) (its : List Iteration) (peers : PeerTable)
    (now : TimePoint) : Prop :=
  ∀ key peer, peers key = some peer ↔ key = peerKey peer ∧
    latest localHostname its peer.ipAddress peer.transferPort = some peer ∧ Live now peer

def Iteration.readings (it : Iteration) : List TimePoint :=
  it.now :: (it.datagram.map Datagram.seen).toList

def ClockMonotone (its : List Iteration) : Prop := (its.flatMap Iteration.readings).Pairwise (· ≤ ·)

theorem toDecimal_injective (a b : ℕ) (h : toDecimal a = toDecimal b) : a = b := by
  rw [← ofDecimal_toDecimal a, h, ofDecimal_toDecimal]

/-- The last `':'` of a key parts the address from the port. -/
theorem peerKey_inj {p q : Peer} :
    peerKey p = peerKey q ↔ p.ipAddress = q.ipAddress ∧ p.transferPort = q.transferPort := by
  refine ⟨fun h => ?_, fun ⟨hip, hport⟩ => by rw [peerKey, peerKey, hip, hport]⟩
  have hport (peer : Peer) : (peerKey peer).reverse.takeWhile (· != 58) =
      (toDecimal peer.transferPort.toNat).reverse := by
    rw [peerKey, List.append_assoc, List.reverse_append, List.reverse_append, List.append_assoc]
    rw [List.takeWhile_append_of_pos]
    · exact List.append_nil _
    · intro b hb
      rw [bne_iff_ne]
      rintro rfl
      exact absurd (isDigit_of_mem_toDecimal _ _ (List.mem_reverse.mp hb)) (by decide)
  have hdigits : toDecimal p.transferPort.toNat = toDecimal q.transferPort.toNat := by
    apply List.reverse_injective
    rw [← hport p, h, hport q]
  refine ⟨?_, UInt16.toNat_inj.mp (toDecimal_injective _ _ hdigits)⟩
  rw [peerKey, peerKey, hdigits] at h
  exact List.append_cancel_right (List.append_cancel_right h)

/-- The invariant of the loop, on which `peerTable_exact_iff` rests: the table holds only latest
announcements, and of those every one that is live. -/
structure Tracks (localHostname : Bytes) (its : List Iteration) (peers : PeerTable)
    (now : TimePoint) : Prop where
  sound : ∀ key peer, peers key = some peer → key = peerKey peer ∧
    latest localHostname its peer.ipAddress peer.transferPort = some peer
  complete : ∀ peer, latest localHostname its peer.ipAddress peer.transferPort = some peer →
    Live now peer → peers (peerKey peer) = some peer

/-- Such a table is exact as soon as nothing in it is stale. -/
theorem Tracks.exactlyLive_iff {host : Bytes} {its : List Iteration} {peers : PeerTable}
    {now : TimePoint} (h : Tracks host its peers now) :
    ExactlyLive host its peers now ↔ ∀ key peer, peers key = some peer → Live now peer := by
  constructor
  · intro hex key peer hp
    exact ((hex key peer).mp hp).2.2
  · intro hlive key peer
    constructor
    · intro hp
      obtain ⟨hkey, hlatest⟩ := h.sound key peer hp
      exact ⟨hkey, hlatest, hlive key peer hp⟩
    · rintro ⟨rfl, hlatest, hl⟩
      exact h.complete peer hlatest hl

theorem removeStalePeers_eq_some {peers : PeerTable} {now : TimePoint} {key : Bytes} {peer : Peer} :
    removeStalePeers peers now key = some peer ↔ peers key = some peer ∧ Live now peer := by
  rw [removeStalePeers, Option.filter_eq_some_iff]
  simp only [gt_iff_lt, not_lt, decide_eq_true_eq]
  exact Iff.rfl

theorem Tracks.removeStalePeers {host : Bytes} {its : List Iteration} {peers : PeerTable}
    {now : TimePoint} (h : Tracks host its peers now) :
    Tracks host its (removeStalePeers peers now) now := by
  refine ⟨fun key peer hp => ?_, fun peer hlatest hl => ?_⟩
  · exact h.sound key peer (removeStalePeers_eq_some.mp hp).1
  · exact removeStalePeers_eq_some.mpr ⟨h.complete peer hlatest hl, hl⟩

/-- As time passes fewer announcements are live. -/
theorem Tracks.later {host : Bytes} {its : List Iteration} {peers : PeerTable}
    {now now' : TimePoint} (h : Tracks host its peers now) (hle : now ≤ now') :
    Tracks host its peers now' := by
  refine ⟨h.sound, fun peer hlatest hl => h.complete peer hlatest ?_⟩
  exact (Int.sub_le_sub_right hle _).trans hl

theorem latest_append_none {host : Bytes} (its : List Iteration) {it : Iteration}
    (h : it.announced host = none) (ip : Bytes) (port : UInt16) :
    latest host (its ++ [it]) ip port = latest host its ip port := by
  rw [latest, List.filterMap_append, List.filterMap_cons, h, List.filterMap_nil, List.append_nil,
    latest]

theorem latest_append_some {host : Bytes} (its : List Iteration) {it : Iteration} {peer : Peer}
    (h : it.announced host = some peer) (ip : Bytes) (port : UInt16) :
    latest host (its ++ [it]) ip port =
      if peer.ipAddress = ip ∧ peer.transferPort = port then some peer
      else latest host its ip port := by
  rw [latest, List.filterMap_append, List.filterMap_cons, h, List.filterMap_nil,
    List.filter_append, List.filter_cons, List.filter_nil]
  simp only [decide_eq_true_eq]
  split
  · rw [List.getLast?_concat]
  · rw [List.append_nil, latest]

theorem Tracks.silent {host : Bytes} {its : List Iteration} {peers : PeerTable} {now : TimePoint}
    (h : Tracks host its peers now) {it : Iteration} (hn : it.announced host = none) :
    Tracks host (its ++ [it]) peers now := by
  refine ⟨fun key peer hp => ?_, fun peer hlatest hl => ?_⟩
  · rw [latest_append_none its hn]
    exact h.sound key peer hp
  · rw [latest_append_none its hn] at hlatest
    exact h.complete peer hlatest hl

/-- A new announcement takes the place of the one before for its address and port. -/
theorem Tracks.announce {host : Bytes} {its : List Iteration} {peers : PeerTable}
    {now : TimePoint} (h : Tracks host its peers now) {it : Iteration} {new : Peer}
    (hn : it.announced host = some new) :
    Tracks host (its ++ [it]) (Function.update peers (peerKey new) (some new)) now := by
  refine ⟨fun key peer hp => ?_, fun peer hlatest hl => ?_⟩
  · rw [latest_append_some its hn]
    by_cases hk : key = peerKey new
    · rw [hk, Function.update_self, Option.some.injEq] at hp
      subst hp
      exact ⟨hk, if_pos ⟨rfl, rfl⟩⟩
    · rw [Function.update_of_ne hk] at hp
      obtain ⟨hkey, hlatest⟩ := h.sound key peer hp
      refine ⟨hkey, ?_⟩
      rw [if_neg, hlatest]
      intro he
      exact hk (hkey.trans (peerKey_inj.mpr he).symm)
  · rw [latest_append_some its hn] at hlatest
    split at hlatest
    · obtain rfl := Option.some.inj hlatest
      exact Function.update_self _ _ _
    · rename_i hne
      rw [Function.update_of_ne]
      · exact h.complete peer hlatest hl
      · intro hk
        exact hne (peerKey_inj.mp hk.symm)

theorem listen_append (host : Bytes) (its : List Iteration) (it : Iteration) :
    listen host (its ++ [it]) = listenerStep host (listen host its) it := by
  rw [listen, List.foldl_append, List.foldl_cons, List.foldl_nil, listen]

theorem announced_eq_none_of_own {host : Bytes} {it : Iteration} (h : it.Own host) :
    it.announced host = none := by
  obtain ⟨peer, hp, hown⟩ := h
  rw [Iteration.announced, hp]
  simp only [Option.filter, hown, Bool.not_true, Bool.false_eq_true, ↓reduceIte]

theorem listenerStep_of_own {host : Bytes} {it : Iteration} (h : it.Own host)
    (peers : PeerTable) : listenerStep host peers it = peers := by
  obtain ⟨peer, hp, hown⟩ := h
  simp only [listenerStep, hp, hown, ↓reduceIte]

/-- Every other turn stores its announcement, if it has one, and then removes what is stale. -/
theorem listenerStep_of_not_own {host : Bytes} {it : Iteration} (h : ¬ it.Own host)
    (peers : PeerTable) : listenerStep host peers it =
      match it.announced host with
      | some peer => removeStalePeers (Function.update peers (peerKey peer) (some peer)) it.now
      | none => removeStalePeers peers it.now := by
  cases hp : it.parsed with
  | none => simp only [listenerStep, Iteration.announced, hp, Option.filter_none]
  | some peer =>
    have hown : isOwnPacket host peer = false := by
      rw [Bool.eq_false_iff]
      intro hown
      exact h ⟨peer, hp, hown⟩
    simp only [listenerStep, Iteration.announced, hp, hown, Bool.false_eq_true, ↓reduceIte,
      Option.filter_some, Bool.not_false]

/-- One turn keeps the invariant, whichever way it takes through the body. -/
theorem Tracks.step {host : Bytes} {its : List Iteration} {peers : PeerTable} {now : TimePoint}
    (h : Tracks host its peers now) {it : Iteration} (hle : now ≤ it.now) :
    Tracks host (its ++ [it]) (listenerStep host peers it) it.now := by
  have hlater := h.later hle
  by_cases hown : it.Own host
  · rw [listenerStep_of_own hown]
    exact hlater.silent (announced_eq_none_of_own hown)
  · rw [listenerStep_of_not_own hown]
    cases hn : it.announced host with
    | none => exact (hlater.silent hn).removeStalePeers
    | some new => exact (hlater.announce hn).removeStalePeers

def lastNow (its : List Iteration) (start : TimePoint) : TimePoint :=
  (its.getLast?.map Iteration.now).getD start

theorem tracks_listen (host : Bytes) (its : List Iteration) (hm : ClockMonotone its)
    (start : TimePoint) (hs : ∀ it ∈ its, start ≤ it.now) :
    Tracks host its (listen host its) (lastNow its start) := by
  induction its using List.reverseRecOn with
  | nil => exact ⟨nofun, nofun⟩
  | append_singleton its it ih =>
    rw [ClockMonotone, List.flatMap_append, List.pairwise_append] at hm
    obtain ⟨hpre, -, hcross⟩ := hm
    have hprev := ih hpre fun x hx => hs x (List.mem_append_left _ hx)
    have hlast : lastNow (its ++ [it]) start = it.now := by
      rw [lastNow, List.getLast?_concat, Option.map_some, Option.getD_some]
    rw [listen_append, hlast]
    apply hprev.step
    -- the reading before is that of an earlier turn, or the start
    rw [lastNow]
    cases hl : its.getLast? with
    | none => exact hs it (List.mem_append_right _ (List.mem_singleton_self it))
    | some before =>
      have hmem : before ∈ its := List.mem_of_getLast? hl
      refine hcross before.now (List.mem_flatMap.mpr ⟨before, hmem, List.mem_cons_self⟩) it.now ?_
      exact List.mem_flatMap.mpr ⟨it, List.mem_singleton_self it, List.mem_cons_self⟩

/-- After a turn the table is exactly the live announcements, unless the turn received the
listener's own packet and something in the table had by then become stale. -/
theorem peerTable_exact_iff (host : Bytes) (its : List Iteration) (it : Iteration)
    (hm : ClockMonotone (its ++ [it])) :
    ExactlyLive host (its ++ [it]) (listen host (its ++ [it])) it.now ↔
      (it.Own host → ∀ key peer, listen host its key = some peer → Live it.now peer) := by
  have hstart : ∃ start, ∀ x ∈ its ++ [it], start ≤ Iteration.now x := by
    rw [ClockMonotone] at hm
    cases its with
    | nil => exact ⟨it.now, fun x hx => by rw [List.nil_append, List.mem_singleton] at hx; rw [hx]⟩
    | cons first its =>
      refine ⟨first.now, fun x hx => ?_⟩
      rw [List.cons_append, List.mem_cons] at hx
      rcases hx with rfl | hx
      · exact le_rfl
      · rw [List.cons_append, List.flatMap_cons, List.pairwise_append] at hm
        exact hm.2.2 first.now List.mem_cons_self x.now
          (List.mem_flatMap.mpr ⟨x, hx, List.mem_cons_self⟩)
  obtain ⟨start, hstart⟩ := hstart
  have htracks := tracks_listen host (its ++ [it]) hm start hstart
  rw [lastNow, List.getLast?_concat, Option.map_some, Option.getD_some] at htracks
  rw [htracks.exactlyLive_iff, listen_append]
  by_cases hown : it.Own host
  · rw [listenerStep_of_own hown]
    exact ⟨fun h _ => h, fun h => h hown⟩
  · refine iff_of_true (fun key peer hp => ?_) fun h => absurd h hown
    rw [listenerStep_of_not_own hown] at hp
    split at hp <;> exact (removeStalePeers_eq_some.mp hp).2

/-- An announcement from another host, and the listener's own eleven seconds later. -/
def bobAnnounces : Iteration :=
  { datagram := some {
      data := ascii "PACKETBRIDGE_DISCOVER|1|bob|9000", host := ascii "10.0.0.2", seen := 0 }
    now := 0 }

def ownAnnouncement : Iteration :=
  { datagram := some {
      data := ascii "PACKETBRIDGE_DISCOVER|1|pc|9000", host := ascii "127.0.0.1"
      seen := 11000000000 }
    now := 11000000000 }

def bob : Peer :=
  { name := ascii "bob", ipAddress := ascii "10.0.0.2", transferPort := 9000, lastSeen := 0
    protocolVersion := 1 }

/-- A turn in which nothing arrives, eleven seconds after the other host. -/
def quietTurn : Iteration := { datagram := none, now := 11000000000 }

theorem quietTurn_not_own : ¬ quietTurn.Own (ascii "pc") := by
  rintro ⟨peer, hp, -⟩
  cases hp

theorem quietTurn_monotone : ClockMonotone [bobAnnounces, ownAnnouncement, quietTurn] := by
  unfold ClockMonotone
  decide

/-- What the own packet has left in the table is gone with the next turn. -/
theorem peerTable_exact_iff_expired :
    ExactlyLive (ascii "pc") [bobAnnounces, ownAnnouncement, quietTurn]
      (listen (ascii "pc") [bobAnnounces, ownAnnouncement, quietTurn]) quietTurn.now :=
  (peerTable_exact_iff (ascii "pc") [bobAnnounces, ownAnnouncement] quietTurn
    quietTurn_monotone).mpr fun hown => absurd hown quietTurn_not_own

theorem bobAnnounces_parsed : bobAnnounces.parsed = some bob := by decide

theorem ownAnnouncement_own : ownAnnouncement.Own (ascii "pc") :=
  ⟨{ name := ascii "pc", ipAddress := ascii "127.0.0.1", transferPort := 9000
     lastSeen := 11000000000, protocolVersion := 1 }, by decide, by decide⟩

theorem bobAnnounces_not_own : ¬ bobAnnounces.Own (ascii "pc") := by
  rintro ⟨peer, hp, hown⟩
  rw [bobAnnounces_parsed, Option.some.injEq] at hp
  subst hp
  exact absurd hown (by decide)

/-- The other host is eleven seconds old and still in the table. -/
theorem stale_peer_kept :
    ClockMonotone [bobAnnounces, ownAnnouncement] ∧
      listen (ascii "pc") [bobAnnounces, ownAnnouncement] (peerKey bob) = some bob ∧
      ¬ Live ownAnnouncement.now bob ∧
      ¬ ExactlyLive (ascii "pc") [bobAnnounces, ownAnnouncement]
        (listen (ascii "pc") [bobAnnounces, ownAnnouncement]) ownAnnouncement.now := by
  have hannounced : bobAnnounces.announced (ascii "pc") = some bob := by
    rw [Iteration.announced, bobAnnounces_parsed]
    rfl
  have hold : ¬ Live ownAnnouncement.now bob := by decide
  have hkept : listen (ascii "pc") [bobAnnounces, ownAnnouncement] (peerKey bob) = some bob := by
    rw [show [bobAnnounces, ownAnnouncement] = [bobAnnounces] ++ [ownAnnouncement] from rfl,
      listen_append, listenerStep_of_own ownAnnouncement_own, listen, List.foldl_cons,
      List.foldl_nil, listenerStep_of_not_own bobAnnounces_not_own, hannounced]
    exact removeStalePeers_eq_some.mpr ⟨Function.update_self _ _ _, by decide⟩
  refine ⟨by unfold ClockMonotone; decide, hkept, hold, fun hex => ?_⟩
  exact hold ((hex _ _).mp hkept).2.2

end PacketBridge
