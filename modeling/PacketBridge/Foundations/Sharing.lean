import Mathlib.Logic.Function.Basic
import PacketBridge.Foundations.Prog

/-! Processes that share a store. Each owns a part of it, and the parts are disjoint: then each
does what it would do alone, in whatever order their calls come, and wherever some are killed. -/
namespace Foundations

namespace Prog

variable {Op : Type} {Ans : Op → Type} {α σ : Type} (h : Handler Op Ans σ)

/-- What is left of a program after `n` calls, and the state they left. -/
def after : ℕ → Prog Op Ans α → σ → Prog Op Ans α × σ
  | 0, p, s => (p, s)
  | _+1, ret a, s => (ret a, s)
  | n+1, call o k, s => after n (k (h o s).1) (h o s).2

variable {h} {n : ℕ} {p : Prog Op Ans α} {s t : σ} {o : Op} {k : Ans o → Prog Op Ans α}

theorem after_succ (ha : after h n p s = (call o k, t)) :
    after h (n+1) p s = (k (h o t).1, (h o t).2) := by
  induction n generalizing p s with
  | zero =>
    obtain ⟨rfl, rfl⟩ := Prod.mk.inj ha
    rfl
  | succ n ih =>
    cases p with
    | ret a => cases ha
    | call o' k' => exact ih ha

theorem run_after (ha : after h n p s = (ret a, t)) : run h p s = (a, t) := by
  induction n generalizing p s with
  | zero =>
    obtain ⟨rfl, rfl⟩ := Prod.mk.inj ha
    rfl
  | succ n ih =>
    cases p with
    | ret a' =>
      cases ha
      rfl
    | call o k =>
      change run h (k (h o s).1) (h o s).2 = _
      exact ih ha

theorem crash_after (cut : Op → σ → σ) (ha : after h n p s = (call o k, t)) :
    crash h cut n p s = cut o t := by
  induction n generalizing p s with
  | zero =>
    obtain ⟨rfl, rfl⟩ := Prod.mk.inj ha
    rfl
  | succ n ih =>
    cases p with
    | ret a => cases ha
    | call o' k' => exact ih ha

theorem Calls.after {P : Op → Prop} (hp : Calls P p) {q : Prog Op Ans α}
    (ha : after h n p s = (q, t)) : Calls P q := by
  induction n generalizing p s with
  | zero =>
    obtain ⟨rfl, rfl⟩ := Prod.mk.inj ha
    exact hp
  | succ n ih =>
    cases p with
    | ret a =>
      cases ha
      exact hp
    | call o k => exact ih (hp.2 _) ha

theorem Calls.both {P Q R : Op → Prop} (hp : Calls P p) (hq : Calls Q p)
    (hr : ∀ o, P o → Q o → R o) : Calls R p := by
  induction p with
  | ret a => trivial
  | call o k ih => exact ⟨hr o hp.1 hq.1, fun r => ih r (hp.2 r) (hq.2 r)⟩

theorem Calls.mono {P Q : Op → Prop} (hp : Calls P p) (hq : ∀ o, P o → Q o) : Calls Q p :=
  hp.both hp fun o ho _ => hq o ho

end Prog

/-- A store in the states of a process: where it is, and the state with another store. -/
structure StoreIn (κ V σ : Type) where
  get : σ → κ → V
  put : (κ → V) → σ → σ
  get_put : ∀ f s, get (put f s) = f
  put_get : ∀ s, put (get s) s = s
  put_put : ∀ f g s, put f (put g s) = put f s

variable {Op : Type} {Ans : Op → Type} {ι α κ V σ : Type}

/-- States that differ at most in the store outside `owned`. -/
structure StoreIn.Agree (S : StoreIn κ V σ) (owned : κ → Prop) (s t : σ) : Prop where
  store : ∀ q, owned q → S.get t q = S.get s q
  rest : S.put (S.get s) t = s

theorem StoreIn.Agree.refl {S : StoreIn κ V σ} {owned : κ → Prop} {s : σ} : S.Agree owned s s :=
  ⟨fun _ _ => rfl, S.put_get s⟩

theorem StoreIn.Agree.put {S : StoreIn κ V σ} {owned : κ → Prop} {s t : σ} (h : S.Agree owned s t)
    {f : κ → V} (hf : ∀ q, owned q → f q = S.get t q) : S.Agree owned s (S.put f t) := by
  refine ⟨?_, by rw [S.put_put, h.rest]⟩
  intro q hq
  rw [S.get_put, hf q hq, h.store q hq]

/-- A call that looks at and changes no more of the store than `owned`, also when it is cut. -/
structure StoreIn.Local {γ : Type} (S : StoreIn κ V σ) (h : Handler Op Ans σ) (cut : γ → Op → σ → σ)
    (owned : κ → Prop) (o : Op) : Prop where
  answer : ∀ s t, S.Agree owned s t → (h o t).1 = (h o s).1
  agree : ∀ s t, S.Agree owned s t → S.Agree owned (h o s).2 (h o t).2
  cutAgree : ∀ c s t, S.Agree owned s t → S.Agree owned (cut c o s) (cut c o t)
  frame : ∀ s q, ¬ owned q → S.get (h o s).2 q = S.get s q
  cutFrame : ∀ c s q, ¬ owned q → S.get (cut c o s) q = S.get s q

/-- The store, and of each process what it has left to do, or nothing when it has been killed, and
the rest of its state. -/
structure Shared (Op : Type) (Ans : Op → Type) (ι α κ V σ : Type) where
  store : κ → V
  procs : ι → Option (Prog Op Ans α) × σ

variable {γ : Type} (S : StoreIn κ V σ) (h : ι → Handler Op Ans σ)
  (cut : γ → Op → σ → σ)

/-- Where a process is that started with `p` in `s`: where it would be alone after some calls, or
killed there. -/
def AsAlone (i : ι) (owned : κ → Prop) (p : Prog Op Ans α) (s : σ) (store : κ → V) :
    Option (Prog Op Ans α) × σ → Prop
  | (some q, t) => ∃ n s', p.after (h i) n s = (q, s') ∧ S.Agree owned s' (S.put store t)
  | (none, _) => ∃ x n, ∀ q, owned q → store q = S.get (p.crash (h i) (cut x) n s) q

variable [DecidableEq ι]

inductive SharedStep : Shared Op Ans ι α κ V σ → Shared Op Ans ι α κ V σ → Prop where
  | call (c : Shared Op Ans ι α κ V σ) (i : ι) (o : Op) (k : Ans o → Prog Op Ans α) (s : σ)
    (hi : c.procs i = (some (.call o k), s)) : SharedStep c {
      store := S.get (h i o (S.put c.store s)).2
      procs := Function.update c.procs i
        (some (k (h i o (S.put c.store s)).1), (h i o (S.put c.store s)).2) }
  | kill (c : Shared Op Ans ι α κ V σ) (i : ι) (o : Op) (k : Ans o → Prog Op Ans α) (s : σ)
    (hi : c.procs i = (some (.call o k), s)) (x : γ) : SharedStep c {
      store := S.get (cut x o (S.put c.store s))
      procs := Function.update c.procs i (none, s) }

inductive SharedRun (c₀ : Shared Op Ans ι α κ V σ) : Shared Op Ans ι α κ V σ → Prop where
  | start : SharedRun c₀ c₀
  | step {c c' : Shared Op Ans ι α κ V σ} (before : SharedRun c₀ c) (hc : SharedStep S h cut c c') :
    SharedRun c₀ c'

section Alone

variable {S h cut} {owned : ι → κ → Prop} {p : ι → Prog Op Ans α} {s : ι → σ}
  {c c' : Shared Op Ans ι α κ V σ}

omit [DecidableEq ι] in
/-- A step of another process leaves a process where it would be alone. -/
theorem AsAlone.beside {i : ι} {owned : κ → Prop} {p : Prog Op Ans α} {s : σ} {store store' : κ → V}
    {proc : Option (Prog Op Ans α) × σ} (ha : AsAlone S h cut i owned p s store proc)
    (hsame : ∀ q, owned q → store' q = store q) : AsAlone S h cut i owned p s store' proc := by
  obtain ⟨_ | q, t⟩ := proc
  · obtain ⟨x, n, hstore⟩ := ha
    refine ⟨x, n, ?_⟩
    intro q hq
    rw [hsame q hq, hstore q hq]
  · obtain ⟨n, s', hafter, hagree⟩ := ha
    have hput : S.put store' (S.put store t) = S.put store' t := S.put_put _ _ _
    refine ⟨n, s', hafter, ?_⟩
    rw [← hput]
    apply hagree.put
    intro q hq
    rw [S.get_put, hsame q hq]

/-- A step keeps each process where it would be alone. -/
theorem SharedStep.asAlone (hapart : ∀ i j q, owned i q → owned j q → i = j)
    (hlocal : ∀ i, (p i).Calls (S.Local (h i) cut (owned i))) (hc : SharedStep S h cut c c')
    (ha : ∀ i, AsAlone S h cut i (owned i) (p i) (s i) c.store (c.procs i)) :
    (∀ i, AsAlone S h cut i (owned i) (p i) (s i) c'.store (c'.procs i)) ∧
      ∀ q, (∀ i, ¬ owned i q) → c'.store q = c.store q := by
  cases hc with
  | call i o k t hi =>
    have hmine := ha i
    rw [hi] at hmine
    obtain ⟨n, s', hafter, hagree⟩ := hmine
    have ho := (hlocal i).after hafter
    have hframe (q : κ) (hq : ¬ owned i q) :
        S.get (h i o (S.put c.store t)).2 q = c.store q := by
      rw [ho.1.frame _ q hq, S.get_put]
    refine ⟨?_, fun q hq => hframe q (hq i)⟩
    intro j
    by_cases hj : j = i
    · subst hj
      simp only [Function.update_self]
      have hsucc := Prog.after_succ hafter
      rw [← ho.1.answer _ _ hagree] at hsucc
      refine ⟨n+1, _, hsucc, ?_⟩
      rw [S.put_get]
      exact ho.1.agree _ _ hagree
    · simp only [Function.update_of_ne hj]
      exact (ha j).beside fun q hq => hframe q fun hq' => hj (hapart j i q hq hq')
  | kill i o k t hi x =>
    have hmine := ha i
    rw [hi] at hmine
    obtain ⟨n, s', hafter, hagree⟩ := hmine
    have ho := (hlocal i).after hafter
    have hframe (q : κ) (hq : ¬ owned i q) :
        S.get (cut x o (S.put c.store t)) q = c.store q := by
      rw [ho.1.cutFrame x _ q hq, S.get_put]
    refine ⟨?_, fun q hq => hframe q (hq i)⟩
    intro j
    by_cases hj : j = i
    · subst hj
      simp only [Function.update_self]
      refine ⟨x, n, ?_⟩
      intro q hq
      rw [Prog.crash_after (cut x) hafter, (ho.1.cutAgree x _ _ hagree).store q hq]
    · simp only [Function.update_of_ne hj]
      exact (ha j).beside fun q hq => hframe q fun hq' => hj (hapart j i q hq hq')

/-- Started in one store, each process is at all times where it would be alone, and the part of the
store that none owns is as before. -/
theorem SharedRun.asAlone {c₀ : Shared Op Ans ι α κ V σ}
    (hapart : ∀ i j q, owned i q → owned j q → i = j)
    (hlocal : ∀ i, (p i).Calls (S.Local (h i) cut (owned i)))
    (hstart : ∀ i, c₀.procs i = (some (p i), s i)) (hstore : ∀ i, S.get (s i) = c₀.store)
    (hrun : SharedRun S h cut c₀ c) :
    (∀ i, AsAlone S h cut i (owned i) (p i) (s i) c.store (c.procs i)) ∧
      ∀ q, (∀ i, ¬ owned i q) → c.store q = c₀.store q := by
  induction hrun with
  | start =>
    refine ⟨?_, fun _ _ => rfl⟩
    intro i
    rw [hstart i]
    refine ⟨0, s i, rfl, ?_⟩
    rw [← hstore i, S.put_get]
    exact StoreIn.Agree.refl
  | step before hc ih =>
    obtain ⟨hprocs, hrest⟩ := hc.asAlone hapart hlocal ih.1
    exact ⟨hprocs, fun q hq => (hrest q hq).trans (ih.2 q hq)⟩

omit [DecidableEq ι] in
/-- A process that has ended has the result it has alone, and left its part of the store the same. -/
theorem AsAlone.ended {i : ι} {owned : κ → Prop} {p : Prog Op Ans α} {s t : σ} {store : κ → V}
    {a : α} (ha : AsAlone S h cut i owned p s store (some (.ret a), t)) :
    a = (p.run (h i) s).1 ∧ ∀ q, owned q → store q = S.get (p.run (h i) s).2 q := by
  obtain ⟨n, s', hafter, hagree⟩ := ha
  rw [Prog.run_after hafter]
  refine ⟨rfl, ?_⟩
  intro q hq
  rw [← hagree.store q hq, S.get_put]

/-- A process that has not ended can go on to its end while the others wait. -/
theorem SharedRun.finish {c₀ : Shared Op Ans ι α κ V σ} {i : ι} {q : Prog Op Ans α} {t : σ}
    (hrun : SharedRun S h cut c₀ c) (hi : c.procs i = (some q, t)) :
    ∃ c' a t', SharedRun S h cut c₀ c' ∧ c'.procs i = (some (.ret a), t') ∧
      ∀ j, j ≠ i → c'.procs j = c.procs j := by
  -- the induction is on what the process has left to do
  induction q generalizing c t with
  | ret a => exact ⟨c, a, t, hrun, hi, fun _ _ => rfl⟩
  | call o k ih =>
    obtain ⟨c', a, t', hrun', hend, hothers⟩ :=
      ih _ (hrun.step (.call c i o k t hi)) (Function.update_self _ _ _)
    refine ⟨c', a, t', hrun', hend, ?_⟩
    intro j hj
    rw [hothers j hj]
    exact Function.update_of_ne hj _ _

end Alone

end Foundations
