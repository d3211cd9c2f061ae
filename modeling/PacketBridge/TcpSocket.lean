import PacketBridge.Foundations.Codec
import Mathlib.Data.List.TakeDrop
import Mathlib.Tactic.Common

/-! Blocking TCP sockets. The network moves an arbitrary positive number of bytes at each call, up
to what was asked; the peer's stream ends after the bytes in `incoming`. -/
namespace PacketBridge
open Foundations

/-- How many bytes the `k`-th call moves when it is asked for `n`. -/
structure Schedule where
  size : ℕ → ℕ → ℕ
  pos : ∀ k n, 0 < n → 0 < size k n
  le : ∀ k n, size k n ≤ n

def Schedule.whole : Schedule := ⟨fun _ n => n, fun _ _ h => h, fun _ _ => le_rfl⟩

/-- A connection as one process sees it. `room` is the number of bytes the connection still takes
before `send` fails; `none` when it never does. -/
structure TcpSocket where
  isOpen : Bool := true
  incoming : Bytes := []
  sent : Bytes := []
  room : Option ℕ := none
  sendSchedule : Schedule := .whole
  recvSchedule : Schedule := .whole
  sends : ℕ := 0
  recvs : ℕ := 0

namespace TcpSocket

def intMax : ℕ := 2147483647

/-- `::send`; `none` is its failure code. -/
def send (s : TcpSocket) (data : Bytes) : Option ℕ × TcpSocket :=
  let wanted := s.sendSchedule.size s.sends data.length
  match s.room with
  | none => (some wanted, { s with sent := s.sent ++ data.take wanted, sends := s.sends+1 })
  | some 0 => (none, { s with sends := s.sends+1 })
  | some (room+1) =>
    let n := min wanted (room+1)
    (some n,
      { s with sent := s.sent ++ data.take n, room := some (room+1-n), sends := s.sends+1 })

/-- `::recv`; the empty answer stands for a closed or failed connection. -/
def recv (s : TcpSocket) (asked : ℕ) : Bytes × TcpSocket :=
  let n := s.recvSchedule.size s.recvs asked
  (s.incoming.take n, { s with incoming := s.incoming.drop n, recvs := s.recvs+1 })

def sendLoop : ℕ → TcpSocket → Bytes → Bool × TcpSocket
  | _, s, [] => (true, s)
  | 0, s, _ :: _ => (false, s)
  | fuel+1, s, b :: bs =>
    match s.send ((b :: bs).take (min (b :: bs).length intMax)) with
    | (none, s) => (false, s)
    | (some 0, s) => (false, s)
    | (some (n+1), s) => sendLoop fuel s ((b :: bs).drop (n+1))

/-- Every round sends a byte at least, so `data.length` rounds are enough. -/
def sendAll (s : TcpSocket) (data : Bytes) : Bool × TcpSocket :=
  if s.isOpen then sendLoop data.length s data else (false, s)

def recvLoop : ℕ → TcpSocket → ℕ → Option Bytes × TcpSocket
  | _, s, 0 => (some [], s)
  | 0, s, _+1 => (none, s)
  | fuel+1, s, remaining+1 =>
    match s.recv (min (remaining+1) intMax) with
    | ([], s) => (none, s)
    | (b :: bs, s) =>
      match recvLoop fuel s (remaining+1-(b :: bs).length) with
      | (some rest, s) => (some ((b :: bs) ++ rest), s)
      | (none, s) => (none, s)

def recvExact (s : TcpSocket) (size : ℕ) : Option Bytes × TcpSocket :=
  if s.isOpen then recvLoop size s size else (none, s)

/-- The socket behind the next `n` bytes of its stream, `k` calls having been made. -/
def skip (s : TcpSocket) (n k : ℕ) : TcpSocket := { s with incoming := s.incoming.drop n, recvs := k }

@[simp] theorem skip_isOpen (s : TcpSocket) (n k : ℕ) : (s.skip n k).isOpen = s.isOpen := rfl
@[simp] theorem skip_sent (s : TcpSocket) (n k : ℕ) : (s.skip n k).sent = s.sent := rfl
@[simp] theorem skip_room (s : TcpSocket) (n k : ℕ) : (s.skip n k).room = s.room := rfl
@[simp] theorem skip_incoming (s : TcpSocket) (n k : ℕ) :
    (s.skip n k).incoming = s.incoming.drop n := rfl

@[simp] theorem skip_skip (s : TcpSocket) (n k n' k' : ℕ) :
    (s.skip n k).skip n' k' = s.skip (n+n') k' := by
  simp only [skip, List.drop_drop]

/-- The receive loop yields the next bytes of the stream or fails with the stream used up, in
whatever pieces they arrive. -/
theorem recvLoop_eq (fuel : ℕ) (s : TcpSocket) (n : ℕ) (hf : n ≤ fuel) :
    ∃ k, recvLoop fuel s n =
      (if n ≤ s.incoming.length then some (s.incoming.take n) else none, s.skip n k) := by
  induction fuel generalizing s n with
  | zero =>
    obtain rfl : n = 0 := Nat.le_zero.mp hf
    exact ⟨s.recvs, by simp [recvLoop, skip]⟩
  | succ fuel ih =>
    cases n with
    | zero => exact ⟨s.recvs, by simp [recvLoop, skip]⟩
    | succ n =>
      have hasked : 0 < min (n+1) intMax := Nat.lt_min.mpr ⟨Nat.succ_pos n, by decide⟩
      have hpos := s.recvSchedule.pos s.recvs _ hasked
      have hle := s.recvSchedule.le s.recvs (min (n+1) intMax)
      generalize hm : s.recvSchedule.size s.recvs (min (n+1) intMax) = m at hpos hle
      have hmn : m ≤ n+1 := hle.trans (Nat.min_le_left _ _)
      have hrecv : s.recv (min (n+1) intMax) = (s.incoming.take m, s.skip m (s.recvs+1)) := by
        simp only [recv, skip, hm]
      rw [recvLoop, hrecv]
      cases hgot : s.incoming.take m with
      | nil =>
        -- the stream has ended
        have hnil : s.incoming = [] := by
          rcases List.take_eq_nil_iff.mp hgot with h0 | h0
          · omega
          · exact h0
        refine ⟨s.recvs+1, ?_⟩
        rw [if_neg (by rw [hnil, List.length_nil]; omega)]
        simp only [hnil, skip, List.drop_nil]
      | cons b bs =>
        have hlen : (b :: bs).length = min m s.incoming.length := by
          rw [← hgot, List.length_take]
        obtain ⟨k, hk⟩ := ih (s.skip m (s.recvs+1)) (n+1-(b :: bs).length)
          (by rw [List.length_cons]; omega)
        refine ⟨k, ?_⟩
        have hskip : m+(n+1-(b :: bs).length) = n+1 ∨ s.incoming.length ≤ m := by omega
        have hsock : (s.skip m (s.recvs+1)).skip (n+1-(b :: bs).length) k = s.skip (n+1) k := by
          rw [skip_skip]
          rcases hskip with h | h
          · rw [h]
          · simp only [skip]
            rw [List.drop_eq_nil_of_le (by omega), List.drop_eq_nil_of_le (by omega)]
        simp only [hk, hsock, skip_incoming, List.length_drop]
        by_cases hn : n+1 ≤ s.incoming.length
        · have hbm : (b :: bs).length = m := by omega
          rw [if_pos (by omega), if_pos hn]
          simp only
          rw [hbm, ← hgot, ← List.take_add, Nat.add_sub_cancel' hmn]
        · rw [if_neg (by omega), if_neg hn]

/-- `recv_exact` returns exactly the next `n` bytes, whatever the segmentation, and fails exactly
when the stream ends before them. -/
theorem recvExact_eq (s : TcpSocket) (n : ℕ) (ho : s.isOpen = true) :
    ∃ k, s.recvExact n =
      (if n ≤ s.incoming.length then some (s.incoming.take n) else none, s.skip n k) := by
  rw [recvExact, if_pos ho]
  exact recvLoop_eq n s n le_rfl

/-- The send loop hands over a prefix, the whole of it when it reports success. -/
theorem sendLoop_eq (fuel : ℕ) (s : TcpSocket) (data : Bytes) (hf : data.length ≤ fuel) :
    ∃ ok n room sends, sendLoop fuel s data =
        (ok, { s with sent := s.sent ++ data.take n, room := room, sends := sends }) ∧
      (ok = true → n = data.length) ∧ (s.room = none → ok = true ∧ room = none) := by
  induction fuel generalizing s data with
  | zero =>
    obtain rfl : data = [] := List.eq_nil_of_length_eq_zero (Nat.le_zero.mp hf)
    exact ⟨true, 0, s.room, s.sends, by simp [sendLoop], fun _ => rfl, fun h => ⟨rfl, h⟩⟩
  | succ fuel ih =>
    cases data with
    | nil => exact ⟨true, 0, s.room, s.sends, by simp [sendLoop], fun _ => rfl, fun h => ⟨rfl, h⟩⟩
    | cons b bs =>
      generalize hd : b :: bs = data at hf ih
      have hlen : 0 < data.length := by rw [← hd, List.length_cons]; omega
      generalize ha : data.take (min data.length intMax) = asked
      have halen : asked.length = min data.length intMax := by
        rw [← ha, List.length_take]; omega
      have hapos : 0 < asked.length := by
        rw [halen]; exact Nat.lt_min.mpr ⟨hlen, by decide⟩
      have hpos := s.sendSchedule.pos s.sends _ hapos
      have hle := s.sendSchedule.le s.sends asked.length
      have htake (m : ℕ) (hm : m ≤ asked.length) : asked.take m = data.take m := by
        rw [← ha, List.take_take, Nat.min_eq_left (by omega)]
      have hloop : sendLoop (fuel+1) s data = match s.send asked with
          | (none, s) => (false, s)
          | (some 0, s) => (false, s)
          | (some (n+1), s) => sendLoop fuel s (data.drop (n+1)) := by
        rw [← ha, ← hd]; rfl
      -- one round that moved `m` bytes, then the rest of the loop
      have round (m : ℕ) (hm : 0 < m) (hma : m ≤ asked.length) (room : Option ℕ)
          (hr : s.room = none → room = none)
          (hsend : s.send asked = (some m, { s with
            sent := s.sent ++ asked.take m, room := room, sends := s.sends+1 })) :
          ∃ ok n room sends, sendLoop (fuel+1) s data =
            (ok, { s with sent := s.sent ++ data.take n, room := room, sends := sends }) ∧
          (ok = true → n = data.length) ∧ (s.room = none → ok = true ∧ room = none) := by
        obtain ⟨ok, n, room', sends, hk, hn, hnone⟩ := ih
          { s with sent := s.sent ++ asked.take m, room := room, sends := s.sends+1 }
          (data.drop m) (by rw [List.length_drop]; omega)
        refine ⟨ok, m+n, room', sends, ?_, ?_, fun h => hnone (hr h)⟩
        · obtain ⟨m, rfl⟩ : ∃ j, m = j+1 := ⟨m-1, by omega⟩
          rw [htake (m+1) hma] at hk hsend
          have hsum : data.take (m+1+n) = data.take (m+1) ++ (data.drop (m+1)).take n :=
            List.take_add
          rw [hloop, hsend, hsum, ← List.append_assoc]
          exact hk
        · intro hok
          have := hn hok
          rw [List.length_drop] at this
          omega
      cases hroom : s.room with
      | none =>
        exact hroom ▸ round _ hpos hle none (fun _ => rfl) (by simp only [send, hroom])
      | some room =>
        cases room with
        | zero =>
          refine ⟨false, 0, some 0, s.sends+1, ?_, nofun, nofun⟩
          rw [hloop]
          simp only [send, hroom, List.take_zero, List.append_nil]
        | succ room =>
          rw [← hroom]
          exact round (min (s.sendSchedule.size s.sends asked.length) (room+1)) (by omega)
            (by omega) (some (room+1-min (s.sendSchedule.size s.sends asked.length) (room+1)))
            (fun h => by rw [hroom] at h; cases h) (by simp only [send, hroom])

theorem sendAll_eq (s : TcpSocket) (data : Bytes) (ho : s.isOpen = true) :
    ∃ ok n room sends, s.sendAll data =
        (ok, { s with sent := s.sent ++ data.take n, room := room, sends := sends }) ∧
      (ok = true → n = data.length) ∧ (s.room = none → ok = true ∧ room = none) := by
  rw [sendAll, if_pos ho]
  exact sendLoop_eq data.length s data le_rfl

/-- `receive` returns what `parse` makes of the bytes that are to come and consumes as many as it
says, whatever the segmentation. -/
def Reads {α : Type} (receive : TcpSocket → Option α × TcpSocket)
    (parse : Bytes → Option α × ℕ) : Prop :=
  ∀ s : TcpSocket, s.isOpen = true →
    ∃ k, receive s = ((parse s.incoming).1, s.skip (parse s.incoming).2 k)

/-- A parser that succeeds has looked at no more than it consumed: bytes behind that change
nothing. -/
def Settles {α : Type} (parse : Bytes → Option α × ℕ) : Prop :=
  ∀ bs rest x, (parse bs).1 = some x → parse (bs ++ rest) = parse bs ∧ (parse bs).2 ≤ bs.length

/-- A prefix of a message that parses is the whole message. -/
theorem Settles.whole {α : Type} {parse : Bytes → Option α × ℕ} (h : Settles parse)
    {bs frame rest : Bytes} {x y : α} (hp : bs <+: frame ++ rest) (hx : (parse bs).1 = some x)
    (hf : parse (frame ++ rest) = (some y, frame.length)) :
    x = y ∧ (parse bs).2 = frame.length ∧ frame <+: bs := by
  obtain ⟨t, ht⟩ := hp
  obtain ⟨heq, hle⟩ := h bs t x hx
  rw [ht, hf] at heq
  rw [← heq] at hx hle ⊢
  refine ⟨(Option.some.inj hx).symm, rfl, ?_⟩
  exact List.prefix_of_prefix_length_le (List.prefix_append frame rest) ⟨t, ht⟩ hle

/-- A receive call that takes encodings off the stream: it succeeds exactly when some front of the
stream is accepted, and then it has consumed that front. -/
theorem Reads.takesExactly {α : Type} {receive : TcpSocket → Option α × TcpSocket}
    {parse : Bytes → Option α × ℕ} {dom : α → Prop} {encode : α → Bytes}
    {decode : Bytes → Option α} (h : Reads receive parse)
    (ht : TakesEncoding dom encode decode parse) (s : TcpSocket) (ho : s.isOpen = true) (a : α) :
    ((receive s).1 = some a ↔ ∃ front, front <+: s.incoming ∧ decode front = some a) ∧
      ∀ front rest, s.incoming = front ++ rest → decode front = some a →
        (receive s).2.incoming = rest := by
  obtain ⟨k, hk⟩ := h s ho
  rw [hk]
  refine ⟨ht.parse_eq_some_iff s.incoming a, ?_⟩
  intro front rest hin ha
  rw [skip_incoming, hin, ht.parse_append ha rest, List.drop_left]

theorem fixed_settles {α : Type} (n : ℕ) (decode : Bytes → Option α) :
    Settles fun bs => (if n ≤ bs.length then decode (bs.take n) else none, n) := by
  intro bs rest x hx
  by_cases hn : n ≤ bs.length
  · simp only [if_pos hn, List.take_append_of_le_length hn, List.length_append,
      if_pos (Nat.le_add_right_of_le hn), true_and]
    exact hn
  · simp only [if_neg hn, reduceCtorEq] at hx

/-- A receive call for a fixed number of bytes, followed by a decoder. -/
theorem recvExact_reads {α : Type} (n : ℕ) (decode : Bytes → Option α) :
    Reads (fun s => match s.recvExact n with
        | (none, s) => (none, s)
        | (some payload, s) => (decode payload, s))
      (fun bs => (if n ≤ bs.length then decode (bs.take n) else none, n)) := by
  intro s ho
  obtain ⟨k, hk⟩ := recvExact_eq s n ho
  refine ⟨k, ?_⟩
  simp only [hk]
  split_ifs <;> rfl

/-- From `s` to `s'` a part of `data` was handed over, all of it when `ok`. -/
structure Sends (s : TcpSocket) (data : Bytes) (ok : Bool) (s' : TcpSocket) : Prop where
  sent : ∃ part, s'.sent = s.sent ++ part ∧ part <+: data ∧ (ok = true → part = data)
  isOpen : s'.isOpen = s.isOpen
  incoming : s'.incoming = s.incoming
  room : s.room = none → ok = true ∧ s'.room = none

theorem sendAll_sends (s : TcpSocket) (data : Bytes) (ho : s.isOpen = true) :
    Sends s data (s.sendAll data).1 (s.sendAll data).2 := by
  obtain ⟨ok, n, room, sends, hs, hn, hroom⟩ := s.sendAll_eq data ho
  rw [hs]
  refine ⟨⟨data.take n, rfl, List.take_prefix n data, fun h => ?_⟩, rfl, rfl, hroom⟩
  rw [hn h, List.take_length]

theorem Sends.append {s s' s'' : TcpSocket} {a b : Bytes} {ok : Bool} (h : Sends s a true s')
    (h' : Sends s' b ok s'') : Sends s (a ++ b) ok s'' := by
  obtain ⟨pa, hpa, -, hwhole⟩ := h.sent
  obtain ⟨pb, hpb, hpre, hok⟩ := h'.sent
  obtain rfl := hwhole rfl
  refine ⟨⟨pa ++ pb, by rw [hpb, hpa, List.append_assoc], (List.prefix_append_right_inj pa).mpr hpre,
    fun h => by rw [hok h]⟩, h'.isOpen.trans h.isOpen, h'.incoming.trans h.incoming,
    fun hr => h'.room (h.room hr).2⟩

/-- A send that failed is the end of what was to be sent. -/
theorem Sends.cut {s s' : TcpSocket} {a : Bytes} (b : Bytes) (h : Sends s a false s') :
    Sends s (a ++ b) false s' := by
  obtain ⟨part, hp, hpre, -⟩ := h.sent
  exact ⟨⟨part, hp, hpre.trans (List.prefix_append a b), nofun⟩, h.isOpen, h.incoming, h.room⟩

theorem Sends.nil (s : TcpSocket) : Sends s [] true s :=
  ⟨⟨[], (List.append_nil s.sent).symm, List.nil_prefix, fun _ => rfl⟩, rfl, rfl,
    fun h => ⟨rfl, h⟩⟩

end TcpSocket

end PacketBridge
