import PacketBridge.Foundations.Prog

namespace Foundations.Prog

variable {Op : Type} {Ans : Op → Type} {α β σ : Type} (h : Handler Op Ans σ)

/-- `p` started in `s` ends with a result and in a state that satisfy `Q`. -/
def Ensures (p : Prog Op Ans α) (s : σ) (Q : α → σ → Prop) : Prop := Q (run h p s).1 (run h p s).2

namespace Ensures

variable {h} {s : σ} {Q R : α → σ → Prop}

theorem pure {a : α} (hq : Q a s) : Ensures h (Pure.pure a : Prog Op Ans α) s Q := hq

theorem perform {o : Op} {Q : Ans o → σ → Prop} (hq : Q (h o s).1 (h o s).2) :
    Ensures h (Prog.perform o : Prog Op Ans (Ans o)) s Q := hq

/-- Sequencing: the middle condition carries from the first part to the second. -/
theorem bind {p : Prog Op Ans α} {f : α → Prog Op Ans β} {Q : β → σ → Prop}
    (hp : Ensures h p s R) (hf : ∀ a t, R a t → Ensures h (f a) t Q) :
    Ensures h (p >>= f) s Q := by
  rw [Ensures, run_bind]
  exact hf _ _ hp

theorem mono {p : Prog Op Ans α} (hp : Ensures h p s R) (hq : ∀ a t, R a t → Q a t) :
    Ensures h p s Q := hq _ _ hp

/-- Sequencing behind a part of which nothing need be known. -/
theorem bind_any {p : Prog Op Ans α} {f : α → Prog Op Ans β} {Q : β → σ → Prop}
    (hf : ∀ a t, Ensures h (f a) t Q) : Ensures h (p >>= f) s Q := by
  rw [Ensures, run_bind]
  exact hf _ _

end Ensures

/-- What all the calls of a program keep still holds at its end. -/
theorem Calls.ensures {P : Op → Prop} {I : σ → Prop} {p : Prog Op Ans α} {s : σ}
    (hp : Calls P p) (hs : I s) (hstep : ∀ o t, P o → I t → I (h o t).2) :
    Ensures h p s fun _ => I := by
  have hsafe : Safe h (fun (_ : Unit) _ t => t) I p s fun _ => I :=
    hp.safe h hs hstep fun _ _ _ _ ht => ht
  exact hsafe.returns

end Foundations.Prog
