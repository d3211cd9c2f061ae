import PacketBridge.Announcement
import PacketBridge.Foundations.AscMap

namespace PacketBridge
open Foundations

def printEvery : ℤ := 3*1000000000

/-- What the listener puts on its standard output: a line when a peer comes or goes, or the table. -/
inductive Printed where
  | discovered (key name : Bytes)
  | stale (key name : Bytes)
  | table (text : Bytes)
  deriving DecidableEq

/-- The text of it, without the time stamp and the level in front of a line. -/
def Printed.text : Printed → Bytes
  | discovered key name => ascii "New peer discovered: " ++ name ++ ascii " at " ++ key
  | stale key name => ascii "Peer stale: " ++ name ++ ascii " at " ++ key
  | table text => text

/-- `std::left` and `std::setw`: a longer text is printed whole. -/
def padRight (width : ℕ) (text : Bytes) : Bytes :=
  text ++ List.replicate (width-text.length) 32

def signedDecimal (n : ℤ) : Bytes :=
  if n < 0 then ascii "-" ++ toDecimal n.natAbs else toDecimal n.natAbs

/-- Whole seconds since the announcement; `duration_cast` cuts towards zero. -/
def secondsAgo (now : TimePoint) (peer : Peer) : ℤ := (now-peer.lastSeen).tdiv 1000000000

def tableRow (now : TimePoint) (index : ℕ) (peer : Peer) : Bytes :=
  padRight 6 (toDecimal index) ++ padRight 24 peer.name ++ padRight 18 peer.ipAddress ++
    padRight 15 (toDecimal peer.transferPort.toNat) ++ signedDecimal (secondsAgo now peer) ++
    ascii "s ago\n"

def tableHeader : Bytes :=
  ascii "\nAvailable PacketBridge peers\n" ++ padRight 6 (ascii "Index") ++
    padRight 24 (ascii "Name") ++ padRight 18 (ascii "IP") ++ padRight 15 (ascii "Transfer Port") ++
    ascii "Last Seen\n" ++ List.replicate 75 45 ++ ascii "\n"

/-- The rows are numbered from one. -/
def printPeerTable (peers : List Peer) (now : TimePoint) : Bytes :=
  if peers = [] then tableHeader ++ ascii "No peers discovered yet.\n"
  else tableHeader ++ (peers.zipIdx 1).flatMap fun row => tableRow now row.2 row.1

structure ListenerState where
  peers : AscMap Bytes Peer
  nextTablePrint : TimePoint

/-- The end of a turn, which a `continue` does not reach: stale entries are erased, and the table is
printed when it is due. -/
def endTurn (state : ListenerState) (now : TimePoint) : ListenerState × List Printed :=
  let fresh (peer : Peer) : Bool := ¬ now-peer.lastSeen > staleAfter
  let erased := state.peers.entries.filter fun e => !fresh e.2
  let lines := erased.map fun e => Printed.stale e.1 e.2.name
  let peers := state.peers.keep fresh
  if now ≥ state.nextTablePrint then
    ({ peers, nextTablePrint := now+printEvery },
      lines ++ [.table (printPeerTable (peers.entries.map Prod.snd) now)])
  else ({ state with peers }, lines)

def listenerTurn (localHostname : Bytes) (state : ListenerState) (it : Iteration) :
    ListenerState × List Printed :=
  match it.parsed with
  | some peer =>
    if isOwnPacket localHostname peer then (state, [])
    else
      let key := peerKey peer
      let isNewPeer := (state.peers.find key).isNone
      let turn := endTurn { state with peers := state.peers.set key peer } it.now
      (turn.1, (if isNewPeer then [.discovered key peer.name] else []) ++ turn.2)
  | none => endTurn state it.now

/-- The state after these turns of a listener that begins at `start`, and all it has printed. -/
def listenerRun (localHostname : Bytes) (start : TimePoint) (its : List Iteration) :
    ListenerState × List Printed :=
  its.foldl (fun run it =>
      let turn := listenerTurn localHostname run.1 it
      (turn.1, run.2 ++ turn.2))
    ({ peers := ∅, nextTablePrint := start }, [])

def printedBy (localHostname : Bytes) (start : TimePoint) (its : List Iteration) (it : Iteration) :
    List Printed :=
  (listenerTurn localHostname (listenerRun localHostname start its).1 it).2

variable {host : Bytes} {start : TimePoint}

theorem listenerRun_append (host : Bytes) (start : TimePoint) (its : List Iteration)
    (it : Iteration) : listenerRun host start (its ++ [it]) =
      ((listenerTurn host (listenerRun host start its).1 it).1,
        (listenerRun host start its).2 ++ printedBy host start its it) := by
  rw [listenerRun, List.foldl_append, List.foldl_cons, List.foldl_nil, printedBy, listenerRun]

theorem endTurn_peers (state : ListenerState) (now : TimePoint) :
    (endTurn state now).1.peers =
      state.peers.keep fun peer => ¬ now-peer.lastSeen > staleAfter := by
  unfold endTurn
  dsimp only
  split <;> rfl

theorem find_endTurn (state : ListenerState) (now : TimePoint) :
    (endTurn state now).1.peers.find = removeStalePeers state.peers.find now := by
  funext key
  rw [endTurn_peers, AscMap.find_keep, removeStalePeers]

/-- A turn that is not cut short by a `continue` ends with the removal and the printing. -/
theorem listenerTurn_of_not_own {it : Iteration} (h : ¬ it.Own host) (state : ListenerState) :
    listenerTurn host state it = match it.announced host with
      | some peer =>
        ((endTurn { state with peers := state.peers.set (peerKey peer) peer } it.now).1,
          (if (state.peers.find (peerKey peer)).isNone then [.discovered (peerKey peer) peer.name]
            else []) ++
            (endTurn { state with peers := state.peers.set (peerKey peer) peer } it.now).2)
      | none => endTurn state it.now := by
  cases hp : it.parsed with
  | none => simp only [listenerTurn, Iteration.announced, hp, Option.filter_none]
  | some peer =>
    have hown : isOwnPacket host peer = false := by
      rw [Bool.eq_false_iff]
      intro hown
      exact h ⟨peer, hp, hown⟩
    simp only [listenerTurn, Iteration.announced, hp, hown, Bool.false_eq_true, ↓reduceIte,
      Option.filter_some, Bool.not_false]

theorem listenerTurn_of_own {it : Iteration} (h : it.Own host) (state : ListenerState) :
    listenerTurn host state it = (state, []) := by
  obtain ⟨peer, hp, hown⟩ := h
  simp only [listenerTurn, hp, hown, ↓reduceIte]

/-- The map of the loop is the table of peers, turn by turn. -/
theorem find_listenerTurn (host : Bytes) (state : ListenerState) (it : Iteration) :
    (listenerTurn host state it).1.peers.find = listenerStep host state.peers.find it := by
  by_cases hown : it.Own host
  · rw [listenerTurn_of_own hown, listenerStep_of_own hown]
  · rw [listenerTurn_of_not_own hown, listenerStep_of_not_own hown]
    cases it.announced host with
    | none => exact find_endTurn state it.now
    | some peer =>
      have hset : (state.peers.set (peerKey peer) peer).find =
          Function.update state.peers.find (peerKey peer) (some peer) := by
        funext key
        rw [AscMap.find_set]
        split
        · rename_i hkey
          rw [hkey, Function.update_self]
        · rename_i hkey
          rw [Function.update_of_ne hkey]
      dsimp only
      rw [find_endTurn, hset]

theorem find_listenerRun (host : Bytes) (start : TimePoint) (its : List Iteration) :
    (listenerRun host start its).1.peers.find = listen host its := by
  induction its using List.reverseRecOn with
  | nil => rfl
  | append_singleton its it ih => rw [listenerRun_append, find_listenerTurn, ih, listen_append]

section Table

def PrintsTable (host : Bytes) (start : TimePoint) (its : List Iteration) (it : Iteration) : Prop :=
  ∃ text, Printed.table text ∈ printedBy host start its it

theorem table_mem_endTurn (state : ListenerState) (now : TimePoint) (text : Bytes) :
    Printed.table text ∈ (endTurn state now).2 ↔ state.nextTablePrint ≤ now ∧
      text = printPeerTable ((endTurn state now).1.peers.entries.map Prod.snd) now := by
  have hlines (entries : List (Bytes × Peer)) :
      Printed.table text ∉ entries.map fun e => Printed.stale e.1 e.2.name := by
    intro h
    obtain ⟨e, -, he⟩ := List.mem_map.mp h
    cases he
  unfold endTurn
  dsimp only
  split
  · rename_i hdue
    rw [List.mem_append, List.mem_singleton, Printed.table.injEq]
    simp only [hlines, false_or]
    exact (and_iff_right hdue).symm
  · rename_i hdue
    exact iff_of_false (hlines _) fun h => hdue h.1

theorem nextTablePrint_endTurn (state : ListenerState) (now : TimePoint) :
    (endTurn state now).1.nextTablePrint =
      if state.nextTablePrint ≤ now then now+printEvery else state.nextTablePrint := by
  unfold endTurn
  dsimp only
  split <;> rfl

/-- A table shows the map as the turn leaves it; it is printed when it is due, in every turn that is
not cut short. -/
theorem table_mem_listenerTurn (state : ListenerState) (it : Iteration) (text : Bytes) :
    Printed.table text ∈ (listenerTurn host state it).2 ↔
      (¬ it.Own host ∧ state.nextTablePrint ≤ it.now) ∧ text =
        printPeerTable ((listenerTurn host state it).1.peers.entries.map Prod.snd) it.now := by
  by_cases hown : it.Own host
  · rw [listenerTurn_of_own hown]
    exact iff_of_false List.not_mem_nil fun h => h.1.1 hown
  · rw [listenerTurn_of_not_own hown]
    simp only [hown, not_false_eq_true, true_and]
    cases it.announced host with
    | none => exact table_mem_endTurn state it.now text
    | some peer =>
      dsimp only
      rw [List.mem_append, table_mem_endTurn]
      refine or_iff_right ?_
      split
      · rw [List.mem_singleton]
        intro h
        cases h
      · exact List.not_mem_nil

theorem nextTablePrint_listenerTurn (state : ListenerState) (it : Iteration) :
    (¬ it.Own host ∧ state.nextTablePrint ≤ it.now →
      (listenerTurn host state it).1.nextTablePrint = it.now+printEvery) ∧
    (¬ (¬ it.Own host ∧ state.nextTablePrint ≤ it.now) →
      (listenerTurn host state it).1.nextTablePrint = state.nextTablePrint) := by
  by_cases hown : it.Own host
  · rw [listenerTurn_of_own hown]
    exact ⟨fun h => absurd hown h.1, fun _ => rfl⟩
  · rw [listenerTurn_of_not_own hown]
    simp only [hown, not_false_eq_true, true_and]
    cases it.announced host with
    | none =>
      dsimp only
      rw [nextTablePrint_endTurn]
      exact ⟨fun h => if_pos h, fun h => if_neg h⟩
    | some peer =>
      dsimp only
      rw [nextTablePrint_endTurn]
      exact ⟨fun h => if_pos h, fun h => if_neg h⟩

theorem printsTable_iff (its : List Iteration) (it : Iteration) : PrintsTable host start its it ↔
    ¬ it.Own host ∧ (listenerRun host start its).1.nextTablePrint ≤ it.now := by
  simp only [PrintsTable, printedBy, table_mem_listenerTurn]
  rw [exists_and_left, and_iff_left ⟨_, rfl⟩]

/-- A table is due three seconds after the last one, and at the start. -/
structure Scheduled (host : Bytes) (start : TimePoint) (its : List Iteration) (next : TimePoint) :
    Prop where
  spaced : ∀ before it, before ++ [it] <+: its → PrintsTable host start before it →
    it.now+printEvery ≤ next
  due : next = start ∨ ∃ before it, before ++ [it] <+: its ∧ PrintsTable host start before it ∧
    next = it.now+printEvery

theorem scheduled_listenerRun (host : Bytes) (start : TimePoint) (its : List Iteration) :
    Scheduled host start its (listenerRun host start its).1.nextTablePrint := by
  induction its using List.reverseRecOn with
  | nil =>
    refine ⟨?_, Or.inl rfl⟩
    intro before it h
    exact absurd (List.prefix_nil.mp h) (List.append_ne_nil_of_right_ne_nil _ (List.cons_ne_nil _ _))
  | append_singleton its x ih =>
    obtain ⟨hprinted, hsilent⟩ := @nextTablePrint_listenerTurn host
      (listenerRun host start its).1 x
    rw [listenerRun_append]
    dsimp only
    by_cases hx : PrintsTable host start its x
    · have hdue := (printsTable_iff its x).mp hx
      rw [hprinted hdue]
      refine ⟨?_, Or.inr ⟨its, x, List.prefix_refl _, hx, rfl⟩⟩
      intro before it h hit
      rcases List.prefix_concat_iff.mp h with heq | hearlier
      · obtain ⟨-, hlast⟩ := List.append_inj' heq rfl
        obtain rfl := (List.cons.inj hlast).1
        exact le_rfl
      · have hnext := (ih.spaced before it hearlier hit).trans hdue.2
        exact hnext.trans (Int.le_add_of_nonneg_right (by decide))
    · rw [hsilent (fun h => hx ((printsTable_iff its x).mpr h))]
      constructor
      · intro before it h hit
        rcases List.prefix_concat_iff.mp h with heq | hearlier
        · obtain ⟨rfl, hlast⟩ := List.append_inj' heq rfl
          obtain rfl := (List.cons.inj hlast).1
          exact absurd hit hx
        · exact ih.spaced before it hearlier hit
      · rcases ih.due with hstart | ⟨before, it, hearlier, hit, hnext⟩
        · exact Or.inl hstart
        · exact Or.inr ⟨before, it, hearlier.trans (List.prefix_append _ _), hit, hnext⟩

/-- A turn prints a table exactly when it is not cut short by the listener's own packet and every
table before it is at least three seconds old. -/
theorem tables_spaced (host : Bytes) (start : TimePoint) (its : List Iteration) (it : Iteration)
    (hstart : start ≤ it.now) :
    PrintsTable host start its it ↔ ¬ it.Own host ∧ ∀ before earlier, before ++ [earlier] <+: its →
      PrintsTable host start before earlier → earlier.now+printEvery ≤ it.now := by
  have hscheduled := scheduled_listenerRun host start its
  rw [printsTable_iff]
  refine and_congr_right' ⟨?_, ?_⟩
  · intro hdue before earlier h hearlier
    exact (hscheduled.spaced before earlier h hearlier).trans hdue
  · intro hall
    rcases hscheduled.due with hnext | ⟨before, earlier, h, hearlier, hnext⟩
    · rw [hnext]
      exact hstart
    · rw [hnext]
      exact hall before earlier h hearlier

/-- The table printed for the first turn is eleven seconds old, and the own packet printed none. -/
theorem tables_spaced_quiet :
    PrintsTable (ascii "pc") 0 [bobAnnounces, ownAnnouncement] quietTurn := by
  refine (tables_spaced (ascii "pc") 0 _ quietTurn (by decide)).mpr ⟨quietTurn_not_own, ?_⟩
  intro before earlier h hearlier
  rcases List.prefix_concat_iff.mp (show before ++ [earlier] <+:
    [bobAnnounces] ++ [ownAnnouncement] from h) with heq | hfirst
  · obtain ⟨rfl, hown⟩ := List.append_inj' heq rfl
    obtain rfl := (List.cons.inj hown).1
    have hprinted := (printsTable_iff _ _).mp hearlier
    exact absurd ownAnnouncement_own hprinted.1
  · rcases List.prefix_concat_iff.mp (show before ++ [earlier] <+: [] ++ [bobAnnounces] from hfirst)
      with heq | hnone
    · obtain ⟨rfl, hbob⟩ := List.append_inj' heq rfl
      obtain rfl := (List.cons.inj hbob).1
      decide
    · exact absurd (List.prefix_nil.mp hnone)
        (List.append_ne_nil_of_right_ne_nil _ (List.cons_ne_nil _ _))

/-- The latest announcement of an address and a port was read off a datagram of the run. -/
theorem exists_of_latest {its : List Iteration} {peer : Peer}
    (h : latest host its peer.ipAddress peer.transferPort = some peer) :
    ∃ it ∈ its, it.announced host = some peer := by
  have hmem := List.mem_of_getLast? h
  rw [List.mem_filter, List.mem_filterMap] at hmem
  exact hmem.1

/-- An announcement carries the reading of the clock taken in its turn. -/
theorem lastSeen_of_announced {it : Iteration} {peer : Peer} (h : it.announced host = some peer) :
    ∃ d, it.datagram = some d ∧ peer.lastSeen = d.seen := by
  rw [Iteration.announced, Option.filter_eq_some_iff, Iteration.parsed, Option.bind_eq_some_iff] at h
  obtain ⟨⟨d, hd, hparse⟩, -⟩ := h
  obtain ⟨a, -, rfl⟩ := (parseDiscoveryMessage_eq_some_iff _ _ _ _).mp hparse
  exact ⟨d, hd, rfl⟩

theorem secondsAgo_le {now : TimePoint} {peer : Peer} (h : Live now peer) :
    secondsAgo now peer ≤ 10 := by
  have hcut (age : ℤ) (hage : age ≤ 10000000000) : age.tdiv 1000000000 ≤ 10 := by
    rw [Int.tdiv_eq_ediv]
    split
    · omega
    · rename_i hneg
      rw [not_or] at hneg
      rw [show Int.sign 1000000000 = 1 from rfl]
      omega
  exact hcut _ h

theorem secondsAgo_nonneg {now : TimePoint} {peer : Peer} (h : peer.lastSeen ≤ now) :
    0 ≤ secondsAgo now peer :=
  Int.tdiv_nonneg (Int.sub_nonneg.mpr h) (by decide)

/-- A table shows a map, and this map is exactly the live peers: a turn that prints has removed what is
stale. -/
theorem exactlyLive_of_table (its : List Iteration) (it : Iteration)
    (hm : ClockMonotone (its ++ [it])) (hstart : ∀ x ∈ its ++ [it], start ≤ x.now) (text : Bytes)
    (h : Printed.table text ∈ printedBy host start its it) :
    ∃ peers : AscMap Bytes Peer, text = printPeerTable (peers.entries.map Prod.snd) it.now ∧
      ExactlyLive host (its ++ [it]) peers.find it.now := by
  obtain ⟨⟨hown, -⟩, rfl⟩ := (table_mem_listenerTurn _ it text).mp h
  refine ⟨_, rfl, ?_⟩
  rw [find_listenerTurn, find_listenerRun, ← listen_append]
  have htracks := tracks_listen host (its ++ [it]) hm start hstart
  rw [lastNow, List.getLast?_concat, Option.map_some, Option.getD_some] at htracks
  apply htracks.exactlyLive_iff.mpr
  intro key peer hp
  rw [listen_append, listenerStep_of_not_own hown] at hp
  split at hp <;> exact (removeStalePeers_eq_some.mp hp).2

theorem mem_rows {its : List Iteration} {peers : AscMap Bytes Peer} {now : TimePoint}
    (h : ExactlyLive host its peers.find now) (peer : Peer) : peer ∈ peers.entries.map Prod.snd ↔
      latest host its peer.ipAddress peer.transferPort = some peer ∧ Live now peer := by
  rw [List.mem_map]
  constructor
  · rintro ⟨⟨key, peer⟩, he, rfl⟩
    exact ((h key peer).mp ((peers.find_eq_some_iff key peer).mpr he)).2
  · intro hp
    have hfind := (h (peerKey peer) peer).mpr ⟨rfl, hp⟩
    exact ⟨(peerKey peer, peer), (peers.find_eq_some_iff _ _).mp hfind, rfl⟩

/-- Whatever the listener prints as its table, in whatever run: it is the peers of the latest
announcements that are at most ten seconds old, each under one row, in the order of their keys. What
is stale is never shown, although the map may hold it for a while. -/
theorem printed_table_live (host : Bytes) (start : TimePoint) (its : List Iteration)
    (it : Iteration) (hm : ClockMonotone (its ++ [it])) (hstart : ∀ x ∈ its ++ [it], start ≤ x.now)
    (text : Bytes) (h : Printed.table text ∈ printedBy host start its it) :
    ∃ peers, text = printPeerTable peers it.now ∧ (peers.map peerKey).Pairwise (· < ·) ∧
      (∀ peer, peer ∈ peers ↔
        latest host (its ++ [it]) peer.ipAddress peer.transferPort = some peer ∧
          Live it.now peer) ∧
      ∀ peer ∈ peers, secondsAgo it.now peer ≤ 10 ∧
        (it.announced host ≠ some peer → 0 ≤ secondsAgo it.now peer) := by
  obtain ⟨peers, htext, hexact⟩ := exactlyLive_of_table its it hm hstart text h
  have hkeys : (peers.entries.map Prod.snd).map peerKey = peers.entries.map Prod.fst := by
    rw [List.map_map]
    apply List.map_congr_left
    intro e he
    exact ((hexact e.1 e.2).mp ((peers.find_eq_some_iff _ _).mpr he)).1.symm
  refine ⟨_, htext, ?_, mem_rows hexact, ?_⟩
  · rw [hkeys, List.pairwise_map]
    exact peers.ascending
  · intro peer hp
    obtain ⟨hlatest, hlive⟩ := (mem_rows hexact peer).mp hp
    refine ⟨secondsAgo_le hlive, ?_⟩
    intro hnew
    obtain ⟨x, hx, hannounced⟩ := exists_of_latest hlatest
    obtain ⟨d, hd, hseen⟩ := lastSeen_of_announced hannounced
    rcases List.mem_append.mp hx with hx | hx
    · -- the announcement is of a turn before
      apply secondsAgo_nonneg
      rw [hseen]
      rw [ClockMonotone, List.flatMap_append, List.pairwise_append] at hm
      refine hm.2.2 d.seen (List.mem_flatMap.mpr ⟨x, hx, ?_⟩) it.now ?_
      · rw [Iteration.readings, hd]
        exact List.mem_cons_of_mem _ List.mem_cons_self
      · exact List.mem_flatMap.mpr ⟨it, List.mem_singleton_self it, List.mem_cons_self⟩
    · rw [List.mem_singleton.mp hx] at hannounced
      exact absurd hannounced hnew

/-- Eleven seconds after its announcement the other host is not in the table that is printed. -/
theorem printed_table_live_expired :
    ∃ peers, Printed.table (printPeerTable peers quietTurn.now) ∈
        printedBy (ascii "pc") 0 [bobAnnounces, ownAnnouncement] quietTurn ∧ bob ∉ peers := by
  have hdue : (listenerRun (ascii "pc") 0 [bobAnnounces, ownAnnouncement]).1.nextTablePrint ≤
      quietTurn.now := by
    decide +kernel
  obtain ⟨text, h⟩ := (printsTable_iff _ quietTurn).mpr ⟨quietTurn_not_own, hdue⟩
  have hstart : ∀ x ∈ [bobAnnounces, ownAnnouncement] ++ [quietTurn], (0 : ℤ) ≤ x.now := by decide
  obtain ⟨peers, rfl, -, hrows, -⟩ := printed_table_live (ascii "pc") 0
    [bobAnnounces, ownAnnouncement] quietTurn quietTurn_monotone hstart text h
  refine ⟨peers, h, ?_⟩
  intro hbob
  exact absurd ((hrows bob).mp hbob).2 (by decide)

end Table

section Lines

end Lines

end PacketBridge
