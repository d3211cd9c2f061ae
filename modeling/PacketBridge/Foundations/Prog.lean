import Mathlib.Data.Nat.Notation

/-! Programs that call an environment, and what holds of them at every point where they may be
stopped. An environment is a state with a handler; a run that is cut after `n` calls leaves the
state those calls left. -/
namespace Foundations

/-- A program over the calls `Op`; a call `o` is answered by a value of `Ans o`. -/
inductive Prog (Op : Type) (Ans : Op → Type) (α : Type) : Type where
  | ret (a : α)
  | call (o : Op) (k : Ans o → Prog Op Ans α)

/-- What the environment answers to a call, and the state it goes to. -/
abbrev Handler (Op : Type) (Ans : Op → Type) (σ : Type) := (o : Op) → σ → Ans o × σ

namespace Prog

variable {Op : Type} {Ans : Op → Type} {α β σ : Type}

protected def bind : Prog Op Ans α → (α → Prog Op Ans β) → Prog Op Ans β
  | ret a, f => f a
  | call o k, f => call o fun r => (k r).bind f

instance : Monad (Prog Op Ans) where
  pure := ret
  bind := Prog.bind

def perform (o : Op) : Prog Op Ans (Ans o) := call o ret

def run (h : Handler Op Ans σ) : Prog Op Ans α → σ → α × σ
  | ret a, s => (a, s)
  | call o k, s => run h (k (h o s).1) (h o s).2

/-- The state left when the program is stopped after `n` calls, or at its end. `cut` is what the
call that was under way had done by then. -/
def crash (h : Handler Op Ans σ) (cut : Op → σ → σ) : ℕ → Prog Op Ans α → σ → σ
  | _, ret _, s => s
  | 0, call o _, s => cut o s
  | n+1, call o k, s => crash h cut n (k (h o s).1) (h o s).2

variable (h : Handler Op Ans σ)

@[simp] theorem run_pure (a : α) (s : σ) : run h (pure a : Prog Op Ans α) s = (a, s) := rfl

@[simp] theorem run_perform (o : Op) (s : σ) : run h (perform o : Prog Op Ans (Ans o)) s = h o s := rfl

@[simp] theorem run_bind (p : Prog Op Ans α) (f : α → Prog Op Ans β) (s : σ) :
    run h (p >>= f) s = run h (f (run h p s).1) (run h p s).2 := by
  change run h (p.bind f) s = _
  induction p generalizing s with
  | ret a => rfl
  | call o k ih => exact ih (h o s).1 (h o s).2

theorem bind_assoc {γ : Type} (p : Prog Op Ans α) (f : α → Prog Op Ans β) (g : β → Prog Op Ans γ) :
    p >>= f >>= g = p >>= fun a => f a >>= g := by
  change (p.bind f).bind g = p.bind fun a => (f a).bind g
  induction p with
  | ret a => rfl
  | call o k ih => exact congrArg (call o) (funext ih)

def steps : Prog Op Ans α → σ → ℕ
  | ret _, _ => 0
  | call o k, s => steps (k (h o s).1) (h o s).2 + 1

@[simp] theorem run_ite (c : Prop) [Decidable c] (p q : Prog Op Ans α) (s : σ) :
    run h (if c then p else q) s = if c then run h p s else run h q s := by
  split <;> rfl

@[simp] theorem crash_pure (cut : Op → σ → σ) (n : ℕ) (a : α) (s : σ) :
    crash h cut n (pure a : Prog Op Ans α) s = s := by
  cases n <;> rfl

theorem crash_perform_zero (cut : Op → σ → σ) (o : Op) (s : σ) :
    crash h cut 0 (perform o : Prog Op Ans (Ans o)) s = cut o s := rfl

theorem crash_perform_succ (cut : Op → σ → σ) (o : Op) (n : ℕ) (s : σ) :
    crash h cut (n+1) (perform o : Prog Op Ans (Ans o)) s = (h o s).2 :=
  crash_pure h cut n (h o s).1 (h o s).2

theorem crash_perform_bind_zero (cut : Op → σ → σ) (o : Op) (f : Ans o → Prog Op Ans α) (s : σ) :
    crash h cut 0 (perform o >>= f) s = cut o s := rfl

theorem crash_perform_bind_succ (cut : Op → σ → σ) (o : Op) (f : Ans o → Prog Op Ans α) (n : ℕ)
    (s : σ) : crash h cut (n+1) (perform o >>= f) s = crash h cut n (f (h o s).1) (h o s).2 := rfl

/-- Stopped before the first part of a sequence has ended. -/
theorem crash_bind_of_lt (cut : Op → σ → σ) (p : Prog Op Ans α) (f : α → Prog Op Ans β) (n : ℕ)
    (s : σ) (hn : n < p.steps h s) : crash h cut n (p >>= f) s = crash h cut n p s := by
  change crash h cut n (p.bind f) s = _
  induction p generalizing n s with
  | ret a => exact absurd hn (Nat.not_lt_zero n)
  | call o k ih =>
    cases n with
    | zero => rfl
    | succ n => exact ih (h o s).1 n (h o s).2 (Nat.lt_of_succ_lt_succ hn)

/-- Stopped after the first part of a sequence has ended. -/
theorem crash_bind_add (cut : Op → σ → σ) (p : Prog Op Ans α) (f : α → Prog Op Ans β) (n : ℕ)
    (s : σ) : crash h cut (p.steps h s+n) (p >>= f) s =
      crash h cut n (f (run h p s).1) (run h p s).2 := by
  change crash h cut (p.steps h s+n) (p.bind f) s = _
  induction p generalizing s with
  | ret a =>
    rw [steps, Nat.zero_add]
    rfl
  | call o k ih =>
    rw [steps, Nat.add_right_comm]
    exact ih (h o s).1 (h o s).2

/-- A sequence is stopped inside its first part, or in the second after the first has ended. -/
theorem crash_bind (cut : Op → σ → σ) (p : Prog Op Ans α) (f : α → Prog Op Ans β) (n : ℕ)
    (s : σ) : crash h cut n (p >>= f) s = crash h cut n p s ∨
      ∃ m, crash h cut n (p >>= f) s = crash h cut m (f (run h p s).1) (run h p s).2 := by
  change crash h cut n (p.bind f) s = _ ∨ ∃ m, crash h cut n (p.bind f) s = _
  induction p generalizing n s with
  | ret a => exact Or.inr ⟨n, rfl⟩
  | call o k ih =>
    cases n with
    | zero => exact Or.inl rfl
    | succ n => exact ih (h o s).1 n (h o s).2

theorem crash_end (cut : Op → σ → σ) (p : Prog Op Ans α) (s : σ) :
    ∃ n, crash h cut n p s = (run h p s).2 := by
  induction p generalizing s with
  | ret a => exact ⟨0, rfl⟩
  | call o k ih =>
    obtain ⟨n, hn⟩ := ih (h o s).1 (h o s).2
    exact ⟨n+1, hn⟩

/-- `p` started in `s` keeps `I` at every point where it may be stopped, in whichever of the ways
`cut`, and `Q` holds of its result and final state. -/
structure Safe {κ : Type} (cut : κ → Op → σ → σ) (I : σ → Prop) (p : Prog Op Ans α) (s : σ)
    (Q : α → σ → Prop) : Prop where
  always : ∀ c n, I (crash h (cut c) n p s)
  returns : Q (run h p s).1 (run h p s).2

namespace Safe

variable {h} {κ : Type} {cut : κ → Op → σ → σ} {I J : σ → Prop} {s : σ} {Q R : α → σ → Prop}

theorem pure {a : α} (hi : I s) (hq : Q a s) :
    Safe h cut I (Pure.pure a : Prog Op Ans α) s Q :=
  ⟨fun c n => by rw [crash_pure]; exact hi, hq⟩

theorem perform {o : Op} {Q : Ans o → σ → Prop} (hc : ∀ c, I (cut c o s)) (hi : I (h o s).2)
    (hq : Q (h o s).1 (h o s).2) : Safe h cut I (Prog.perform o : Prog Op Ans (Ans o)) s Q := by
  refine ⟨fun c n => ?_, hq⟩
  match n with
  | 0 => exact hc c
  | 1 => exact hi
  | _+2 => exact hi

/-- Sequencing: the middle condition carries from the first part to the second. -/
theorem bind {p : Prog Op Ans α} {f : α → Prog Op Ans β} {Q : β → σ → Prop}
    (hp : Safe h cut I p s R) (hf : ∀ a t, R a t → Safe h cut I (f a) t Q) :
    Safe h cut I (p >>= f) s Q := by
  have hk := hf _ _ hp.returns
  refine ⟨fun c n => ?_, ?_⟩
  · rcases crash_bind h (cut c) p f n s with hn | ⟨m, hm⟩
    · rw [hn]
      exact hp.always c n
    · rw [hm]
      exact hk.always c m
  · rw [run_bind]
    exact hk.returns

theorem mono {p : Prog Op Ans α} (hp : Safe h cut I p s R) (hi : ∀ t, I t → J t)
    (hq : ∀ a t, R a t → Q a t) : Safe h cut J p s Q :=
  ⟨fun c n => hi _ (hp.always c n), hq _ _ hp.returns⟩

theorem final [Inhabited κ] {p : Prog Op Ans α} (hp : Safe h cut I p s Q) :
    I (run h p s).2 := by
  obtain ⟨n, hn⟩ := crash_end h (cut default) p s
  rw [← hn]
  exact hp.always default n

end Safe

def Calls (P : Op → Prop) : Prog Op Ans α → Prop
  | ret _ => True
  | call o k => P o ∧ ∀ r, Calls P (k r)

section Calls

variable {P : Op → Prop}

@[simp] theorem calls_pure (a : α) : Calls P (pure a : Prog Op Ans α) := trivial

@[simp] theorem calls_perform (o : Op) : Calls P (perform o : Prog Op Ans (Ans o)) ↔ P o :=
  ⟨And.left, fun ho => ⟨ho, fun _ => trivial⟩⟩

theorem Calls.bind {p : Prog Op Ans α} {f : α → Prog Op Ans β} (hp : Calls P p)
    (hf : ∀ a, Calls P (f a)) : Calls P (p >>= f) := by
  change Calls P (p.bind f)
  induction p with
  | ret a => exact hf a
  | call o k ih => exact ⟨hp.1, fun r => ih r (hp.2 r)⟩

/-- What all those calls keep, whole or cut short, holds wherever the program is stopped. -/
theorem Calls.safe {κ : Type} {cut : κ → Op → σ → σ} {I : σ → Prop} {p : Prog Op Ans α} {s : σ}
    (hp : Calls P p) (hs : I s) (hstep : ∀ o t, P o → I t → I (h o t).2)
    (hcut : ∀ c o t, P o → I t → I (cut c o t)) : Safe h cut I p s fun _ => I := by
  induction p generalizing s with
  | ret a => exact Safe.pure hs hs
  | call o k ih =>
    have hk := ih (h o s).1 (hp.2 _) (hstep o s hp.1 hs)
    refine ⟨fun c n => ?_, hk.returns⟩
    cases n with
    | zero => exact hcut c o s hp.1 hs
    | succ n => exact hk.always c n

end Calls

end Prog

end Foundations
