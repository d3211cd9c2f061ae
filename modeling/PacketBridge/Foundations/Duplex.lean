import Mathlib.Data.Bool.Basic
import Mathlib.Data.List.Infix
import Mathlib.Data.Nat.Notation
import Mathlib.Logic.Function.Basic
import Mathlib.Tactic.Common

/-! Two processes over a connection that holds a bounded number of symbols in each direction. A
process sends all that it can before it reads, and it reads one symbol at a time. -/
namespace Foundations

/-- A process at one end of the connection: what it has sent when it has taken some symbols and
waits, and whether it still reads then. -/
structure Party (α : Type) where
  sends : List α → List α
  reads : List α → Prop

/-- What each end has put on the connection, and what it has taken off it. -/
structure Traffic (α : Type) where
  sent : Bool → List α := fun _ => []
  taken : Bool → List α := fun _ => []

variable {α : Type}

/-- One symbol moves. The connection takes a symbol of end `i` when it holds fewer than `room i` of
them, and an end takes a symbol when it has nothing left to send and reads. -/
inductive Step (p : Bool → Party α) (room : Bool → ℕ) : Traffic α → Traffic α → Prop where
  | send (t : Traffic α) (i : Bool) (x : α) (h : t.sent i ++ [x] <+: (p i).sends (t.taken i))
    (hroom : (t.sent i).length < (t.taken !i).length+room i) :
    Step p room t { t with sent := Function.update t.sent i (t.sent i ++ [x]) }
  | take (t : Traffic α) (i : Bool) (x : α) (h : t.taken i ++ [x] <+: t.sent !i)
    (hidle : t.sent i = (p i).sends (t.taken i)) (hreads : (p i).reads (t.taken i)) :
    Step p room t { t with taken := Function.update t.taken i (t.taken i ++ [x]) }

/-- What the two ends can come to in `n` steps, in any order. -/
inductive Run (p : Bool → Party α) (room : Bool → ℕ) : ℕ → Traffic α → Prop where
  | start : Run p room 0 {}
  | step {n : ℕ} {t t' : Traffic α} (before : Run p room n t) (h : Step p room t t') :
    Run p room (n+1) t'

/-- The two ends have a conversation in which each says `whole`: this is what they come to; an end
reads until it has all of the other's part; never do both have something that the other has not
taken; and when neither has, all is said. -/
structure Conversation (p : Bool → Party α) (whole : Bool → List α) : Prop where
  settled : ∀ i, (p i).sends (whole !i) = whole i
  grows : ∀ i x y, x <+: y → y <+: whole !i → (p i).sends x <+: (p i).sends y
  reads : ∀ i x, x <+: whole !i → x ≠ whole !i → (p i).reads x
  turns : ∀ x : Bool → List α, (∀ i, x i <+: whole !i) → ∃ i, (p i).sends (x i) <+: x !i
  moves : ∀ x : Bool → List α, (∀ i, x i <+: whole !i) → (∀ i, (p i).sends (x i) = x !i) →
    ∀ i, x i = whole !i

/-- Each end has sent no more than it has to say, and taken no more than the other has sent. -/
structure Traffic.Within (p : Bool → Party α) (whole : Bool → List α) (t : Traffic α) : Prop where
  sends : ∀ i, t.sent i <+: (p i).sends (t.taken i)
  takes : ∀ i, t.taken i <+: t.sent !i
  whole : ∀ i, t.sent i <+: whole i

def Traffic.moved (t : Traffic α) : ℕ :=
  (t.sent true).length+(t.sent false).length+((t.taken true).length+(t.taken false).length)

/-- A front that is not the whole can be made longer. -/
theorem exists_prefix_snoc {x y : List α} (h : x <+: y) (hne : x ≠ y) : ∃ a, x ++ [a] <+: y := by
  obtain ⟨rest, rfl⟩ := h
  cases rest with
  | nil => exact absurd (List.append_nil x).symm hne
  | cons a rest =>
    refine ⟨a, rest, ?_⟩
    rw [List.append_assoc]
    rfl

section Steps

variable {p : Bool → Party α} {room : Bool → ℕ} {whole : Bool → List α} {t t' : Traffic α}

theorem Traffic.Within.taken_le (h : t.Within p whole) (i : Bool) : t.taken i <+: whole !i :=
  (h.takes i).trans (h.whole !i)

theorem Step.moved (h : Step p room t t') : t'.moved = t.moved+1 := by
  -- one list of one end has grown by a symbol
  cases h with
  | send i x _ _ | take i x _ _ _ =>
    cases i
    all_goals
      simp only [Traffic.moved, Function.update_self, ne_eq, reduceCtorEq, not_false_eq_true,
        Function.update_of_ne, List.length_append, List.length_singleton]
      omega

/-- A step keeps the ends within what they have to say. -/
theorem Conversation.step (hc : Conversation p whole) (hw : t.Within p whole)
    (h : Step p room t t') : t'.Within p whole := by
  cases h with
  | send i x hx _ =>
    refine ⟨?_, ?_, ?_⟩
    · intro j
      by_cases hj : j = i
      · subst hj
        simpa only [Function.update_self] using hx
      · simpa only [Function.update_of_ne hj] using hw.sends j
    · intro j
      by_cases hj : (!j) = i
      · subst hj
        simp only [Function.update_self]
        exact (hw.takes j).trans (List.prefix_append _ _)
      · simpa only [Function.update_of_ne hj] using hw.takes j
    · intro j
      by_cases hj : j = i
      · subst hj
        simp only [Function.update_self]
        rw [← hc.settled j]
        exact hx.trans (hc.grows j _ _ (hw.taken_le j) (List.prefix_refl _))
      · simpa only [Function.update_of_ne hj] using hw.whole j
  | take i x hx hidle _ =>
    refine ⟨?_, ?_, hw.whole⟩
    · intro j
      by_cases hj : j = i
      · subst hj
        simp only [Function.update_self]
        rw [hidle]
        exact hc.grows j _ _ (List.prefix_append _ _) (hx.trans (hw.whole !j))
      · simpa only [Function.update_of_ne hj] using hw.sends j
    · intro j
      by_cases hj : j = i
      · subst hj
        simpa only [Function.update_self] using hx
      · simpa only [Function.update_of_ne hj] using hw.takes j

/-- So does a run, and it moves one symbol at each step. -/
theorem Conversation.run (hc : Conversation p whole) {n : ℕ} (h : Run p room n t) :
    t.Within p whole ∧ t.moved = n := by
  induction h with
  | start => exact ⟨⟨fun _ => List.nil_prefix, fun _ => List.nil_prefix, fun _ => List.nil_prefix⟩, rfl⟩
  | step before hs ih =>
    refine ⟨hc.step ih.1 hs, ?_⟩
    rw [hs.moved, ih.2]

/-- A run that cannot go on has said and heard everything: with room for a single symbol in each
direction the two ends never block each other. -/
theorem Conversation.progress (hc : Conversation p whole) (hroom : ∀ i, 0 < room i)
    (hw : t.Within p whole) (hstuck : ∀ t', ¬ Step p room t t') (i : Bool) :
    t.sent i = whole i ∧ t.taken i = whole !i := by
  -- one end has nothing that the other has not taken, so it waits
  obtain ⟨j, hj⟩ := hc.turns t.taken hw.taken_le
  have hback : t.taken (!j) <+: t.sent j := by
    have h := hw.takes !j
    rwa [Bool.not_not] at h
  have hsaid : t.sent j = (p j).sends (t.taken j) :=
    (hw.sends j).eq_of_length_le (hj.trans hback).length_le
  have hheard : t.sent j = t.taken !j :=
    (hsaid ▸ hj).eq_of_length_le hback.length_le
  have htaken : t.taken j = t.sent !j := by
    by_contra hne
    obtain ⟨x, hx⟩ := exists_prefix_snoc (hw.takes j) hne
    apply hstuck _ (.take t j x hx hsaid ?_)
    apply hc.reads j _ (hw.taken_le j)
    intro hall
    apply hne
    apply (hw.takes j).eq_of_length_le
    rw [hall]
    exact (hw.whole !j).length_le
  -- then all that the other has sent is taken, so there is room for more of it
  have hother : t.sent (!j) = (p !j).sends (t.taken !j) := by
    by_contra hne
    obtain ⟨x, hx⟩ := exists_prefix_snoc (hw.sends !j) hne
    apply hstuck _ (.send t (!j) x hx ?_)
    rw [Bool.not_not, htaken]
    exact Nat.lt_add_of_pos_right (hroom !j)
  have hquiet : ∀ k, (p k).sends (t.taken k) = t.taken !k := by
    intro k
    rcases Bool.eq_or_eq_not k j with rfl | rfl
    · rw [← hsaid, hheard]
    · rw [← hother, Bool.not_not, htaken]
  have hall := hc.moves t.taken hw.taken_le hquiet
  refine ⟨?_, hall i⟩
  have hsent : t.sent i = (p i).sends (t.taken i) := by
    rcases Bool.eq_or_eq_not i j with rfl | rfl
    · exact hsaid
    · exact hother
  rw [hsent, hall i, hc.settled]

/-- Every run ends after as many steps as there are symbols to send and to take, whatever the order,
and then all of them are sent and taken. -/
theorem Conversation.completes (hc : Conversation p whole) (hroom : ∀ i, 0 < room i) {n : ℕ}
    (h : Run p room n t) :
    n ≤ 2*((whole true).length+(whole false).length) ∧
      (n < 2*((whole true).length+(whole false).length) → ∃ t', Step p room t t') ∧
      (n = 2*((whole true).length+(whole false).length) →
        ∀ i, t.sent i = whole i ∧ t.taken i = whole !i) := by
  obtain ⟨hw, hmoved⟩ := hc.run h
  have hsent (i : Bool) := (hw.whole i).length_le
  have htaken (i : Bool) := (hw.taken_le i).length_le
  have hst := hsent true
  have hsf := hsent false
  have htt := htaken true
  have htf := htaken false
  rw [Bool.not_true] at htt
  rw [Bool.not_false] at htf
  unfold Traffic.moved at hmoved
  refine ⟨by omega, ?_, ?_⟩
  · intro hn
    by_contra hnone
    have hend := hc.progress hroom hw fun t' hs => hnone ⟨t', hs⟩
    rw [(hend true).1, (hend false).1, (hend true).2, (hend false).2, Bool.not_true,
      Bool.not_false] at hmoved
    omega
  · intro hn i
    cases i
    · exact ⟨(hw.whole false).eq_of_length (by omega),
        (hw.taken_le false).eq_of_length (by rw [Bool.not_false]; omega)⟩
    · exact ⟨(hw.whole true).eq_of_length (by omega),
        (hw.taken_le true).eq_of_length (by rw [Bool.not_true]; omega)⟩

/-- There are runs of every length up to that one. -/
theorem Conversation.exists_run (hc : Conversation p whole) (hroom : ∀ i, 0 < room i) (n : ℕ)
    (hn : n ≤ 2*((whole true).length+(whole false).length)) : ∃ t, Run p room n t := by
  induction n with
  | zero => exact ⟨_, .start⟩
  | succ n ih =>
    obtain ⟨t, ht⟩ := ih (Nat.le_of_succ_le hn)
    obtain ⟨t', hstep⟩ := (hc.completes hroom ht).2.1 hn
    exact ⟨t', .step ht hstep⟩

end Steps

end Foundations
