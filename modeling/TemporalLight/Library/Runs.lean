import Mathlib.Data.List.Basic

/-!
# Runs of a partial transition function

`Reach step ok s₀ s`: the state `s` is reached from `s₀` by steps that all satisfy the condition
`ok` in the state they are taken from.  A property that holds at the start and is preserved by
every such step holds in every reached state (`Reach.invariant`).  A `Trace` is such a run together
with its past, the steps it has taken.  `follow` executes a given list of labels and checks `ok` on
the way; it is how a concrete run is exhibited.
-/

namespace Runs
variable {σ Λ : Type} (step : σ → Λ → Option σ)

inductive Reach (ok : σ → Λ → Prop) (s₀ : σ) : σ → Prop where
  | start : Reach ok s₀ s₀
  | step {s s' : σ} (l : Λ) : Reach ok s₀ s → ok s l → step s l = some s' → Reach ok s₀ s'

variable {step} {ok ok' : σ → Λ → Prop} {s₀ s₁ s : σ}

theorem Reach.invariant {I : σ → Prop} (h₀ : I s₀)
    (hs : ∀ s l s', I s → ok s l → step s l = some s' → I s') (h : Reach step ok s₀ s) : I s := by
  induction h with
  | start => exact h₀
  | step l _ hok hstep ih => exact hs _ l _ ih hok hstep

theorem Reach.invariant_of_reach {I : σ → Prop} (h₀ : I s₀)
    (hs : ∀ s l s', Reach step ok s₀ s → I s → ok s l → step s l = some s' → I s')
    (h : Reach step ok s₀ s) : I s := by
  induction h with
  | start => exact h₀
  | step l hr hok hstep ih => exact hs _ l _ hr ih hok hstep

theorem Reach.mono (hok : ∀ s l, ok s l → ok' s l) (h : Reach step ok s₀ s) :
    Reach step ok' s₀ s := by
  induction h with
  | start => exact .start
  | step l _ h hstep ih => exact .step l ih (hok _ _ h) hstep

theorem Reach.strengthen (hok : ∀ s l s', Reach step ok s₀ s → ok s l → step s l = some s' → ok' s l)
    (h : Reach step ok s₀ s) : Reach step ok' s₀ s := by
  induction h with
  | start => exact .start
  | step l hr h hstep ih => exact .step l ih (hok _ _ _ hr h hstep) hstep

theorem Reach.trans (h₁ : Reach step ok s₀ s₁) (h₂ : Reach step ok s₁ s) : Reach step ok s₀ s := by
  induction h₂ with
  | start => exact h₁
  | step l _ hok hstep ih => exact .step l ih hok hstep

theorem Reach.toward (h : Reach step ok s₀ s)
    (hok : ∀ s₁ l s₂, Reach step ok s₀ s₁ → ok s₁ l → step s₁ l = some s₂ → Reach step ok s₂ s →
      ok' s₁ l) : Reach step ok' s₀ s := by
  suffices ∀ {s₁}, Reach step ok s₀ s₁ → Reach step ok s₁ s → Reach step ok' s₀ s₁ from this h .start
  intro s₁ h₁
  induction h₁ with
  | start => exact fun _ => .start
  | step l hr hl hstep ih =>
    intro hrest
    exact .step l (ih ((Reach.step l .start hl hstep).trans hrest)) (hok _ l _ hr hl hstep hrest) hstep

/-- a run with its past, the last step first -/
inductive Trace (step : σ → Λ → Option σ) (ok : σ → Λ → Prop) (s₀ : σ) : List (σ × Λ) → σ → Prop where
  | start : Trace step ok s₀ [] s₀
  | step {past : List (σ × Λ)} {s s' : σ} (l : Λ) : Trace step ok s₀ past s → ok s l →
      step s l = some s' → Trace step ok s₀ ((s, l) :: past) s'

theorem Trace.reach {past : List (σ × Λ)} (h : Trace step ok s₀ past s) : Reach step ok s₀ s := by
  induction h with
  | start => exact .start
  | step l _ hok hstep ih => exact .step l ih hok hstep

theorem Trace.of_mem {past : List (σ × Λ)} (h : Trace step ok s₀ past s) {l : Λ}
    (hmem : (s₁, l) ∈ past) : Reach step ok s₀ s₁ ∧ ∃ s₂, step s₁ l = some s₂ := by
  induction h with
  | start => cases hmem
  | step l' hpast hok hstep ih =>
    rcases List.mem_cons.mp hmem with heq | hmem
    · obtain ⟨rfl, rfl⟩ := Prod.mk.inj heq
      exact ⟨hpast.reach, _, hstep⟩
    · exact ih hmem

theorem Reach.exists_trace (h : Reach step ok s₀ s) : ∃ past, Trace step ok s₀ past s := by
  induction h with
  | start => exact ⟨[], .start⟩
  | step l _ hok hstep ih =>
    obtain ⟨past, hpast⟩ := ih
    exact ⟨_, .step l hpast hok hstep⟩

/-- execute the labels in order; `none` when a step is disabled or violates the check -/
def follow (step : σ → Λ → Option σ) (check : σ → Λ → Bool) : σ → List Λ → Option σ
  | s, [] => some s
  | s, l :: ls => if check s l then (step s l).bind (follow step check · ls) else none

theorem Reach.of_follow {check : σ → Λ → Bool} (hc : ∀ s l, check s l = true → ok s l) :
    ∀ (ls : List Λ) {s s' : σ}, Reach step ok s₀ s → follow step check s ls = some s' →
      Reach step ok s₀ s'
  | [], s, s', h, hf => by
    simp only [follow, Option.some.injEq] at hf
    exact hf ▸ h
  | l :: ls, s, s', h, hf => by
    simp only [follow] at hf
    by_cases hl : check s l = true
    · rw [if_pos hl] at hf
      cases hs : step s l with
      | none => rw [hs] at hf; simp at hf
      | some t =>
        rw [hs] at hf
        exact Reach.of_follow hc ls (.step l h (hc s l hl) hs) hf
    · rw [if_neg hl] at hf
      simp at hf

theorem Reach.exists_of_follow {check : σ → Λ → Bool} {P : σ → Bool} (ls : List Λ)
    (h : (follow step check s ls).any P = true) :
    ∃ s', Reach step (fun s l => check s l = true) s s' ∧ P s' = true := by
  obtain ⟨s', hs', hP⟩ := (Option.any_eq_true _ _).mp h
  exact ⟨s', .of_follow (fun _ _ => id) ls .start hs', hP⟩

end Runs
