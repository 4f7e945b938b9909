import Mathlib.Logic.Basic

/-!
# Resumptions and a rely/guarantee weakest precondition

A RESUMPTION is a computation that asks the outside world questions `q : Q`, one at a time, and
goes on with the answer of type `R q`.  Between two questions of one resumption the state may be
changed by other parties, so a property of a resumption is stated relative to `Rules`:

* `rely s s'`        what the other parties may do to the state while the resumption waits;
* `ask q s`          what must hold of the state whenever the question `q` is put;
* `answer q r s s'`  what may happen when `q` is answered by `r`;
* `keep s s'`        what every answered question has to preserve.

`wp ρ c Φ s` says that `c`, started in `s`, only asks questions it may ask, preserves `keep`, and
ends with a value that satisfies `Φ`, whatever the other parties do in between.  It is closed
under `rely` by construction (`wp_rely`), so an assertion of this form about one party survives
every step of the others.

`Residual c₀ c` says that `c` is what is left of `c₀` at some point.
-/

/-- a computation that asks questions `q : Q` and continues with an answer of type `R q` -/
inductive Resumption (Q : Type) (R : Q → Type) (α : Type) where
  | pure (a : α)
  | call (q : Q) (k : R q → Resumption Q R α)

namespace Resumption
variable {Q : Type} {R : Q → Type} {α β γ : Type}

def bind : Resumption Q R α → (α → Resumption Q R β) → Resumption Q R β
  | .pure a, f => f a
  | .call q k, f => .call q (fun r => bind (k r) f)

instance : Monad (Resumption Q R) where
  pure := .pure
  bind := bind

def ask (q : Q) : Resumption Q R (R q) := .call q .pure

def value? : Resumption Q R α → Option α
  | .pure a => some a
  | .call _ _ => none

def pending? : Resumption Q R α → Option ((q : Q) × (R q → Resumption Q R α))
  | .pure _ => none
  | .call q k => some ⟨q, k⟩

/-- what a computation asks and its value, when `reply` answers all its questions -/
def answered (reply : (q : Q) → R q) : Resumption Q R α → List Q × α
  | .pure a => ([], a)
  | .call q k =>
    let rest := (k (reply q)).answered reply
    (q :: rest.1, rest.2)

theorem value?_eq_some {c : Resumption Q R α} {a : α} (h : c.value? = some a) : c = .pure a := by
  cases c with
  | pure b => simpa [value?] using h
  | call q k => simp [value?] at h

theorem pending?_eq_some {c : Resumption Q R α} {n : (q : Q) × (R q → Resumption Q R α)}
    (h : c.pending? = some n) : c = .call n.1 n.2 := by
  cases c with
  | pure b => simp [pending?] at h
  | call q k => simp only [pending?, Option.some.injEq] at h; rw [← h]

@[simp] theorem pure_eq (a : α) : (Pure.pure a : Resumption Q R α) = .pure a := rfl
@[simp] theorem pure_bind (a : α) (f : α → Resumption Q R β) : (pure a >>= f) = f a := rfl
@[simp] theorem call_bind (q : Q) (k : R q → Resumption Q R α) (f : α → Resumption Q R β) :
    (call q k >>= f) = call q (fun r => k r >>= f) := rfl
@[simp] theorem ask_bind (q : Q) (f : R q → Resumption Q R β) : (ask q >>= f) = call q f := rfl

end Resumption

/-- the interface between one resumption and the parties that share its state -/
structure Rules (Q : Type) (R : Q → Type) (σ : Type) where
  rely : σ → σ → Prop
  ask : Q → σ → Prop
  answer : (q : Q) → R q → σ → σ → Prop
  keep : σ → σ → Prop
  rely_refl : ∀ s, rely s s
  rely_trans : ∀ {s s' s''}, rely s s' → rely s' s'' → rely s s''

namespace Resumption
section
variable {Q : Type} {R : Q → Type} {σ α β : Type} {ρ : Rules Q R σ}

/-- **The weakest precondition of a resumption among other parties.** -/
def wp (ρ : Rules Q R σ) : Resumption Q R α → (α → σ → Prop) → σ → Prop
  | .pure a, Φ, s => ∀ s', ρ.rely s s' → Φ a s'
  | .call q k, Φ, s => ∀ s', ρ.rely s s' → ρ.ask q s' ∧
      ∀ r s'', ρ.answer q r s' s'' → ρ.keep s' s'' ∧ wp ρ (k r) Φ s''

/-- an assertion that no other party can break -/
def Stable (ρ : Rules Q R σ) (P : σ → Prop) : Prop := ∀ s s', ρ.rely s s' → P s → P s'

theorem wp_call {Φ : α → σ → Prop} {q : Q} {k : R q → Resumption Q R α} {s : σ}
    {P : σ → Prop} (hP : Stable ρ P) (h : P s)
    (hask : ∀ s', P s' → ρ.ask q s')
    (hans : ∀ s' r s'', P s' → ρ.answer q r s' s'' → ρ.keep s' s'' ∧ wp ρ (k r) Φ s'') :
    wp ρ (.call q k) Φ s := by
  intro s' hs
  have hP' := hP s s' hs h
  exact ⟨hask s' hP', fun r s'' hr => hans s' r s'' hP' hr⟩

theorem wp_rely {c : Resumption Q R α} {Φ : α → σ → Prop} {s s' : σ} (hs : ρ.rely s s')
    (h : wp ρ c Φ s) : wp ρ c Φ s' := by
  cases c with
  | pure a => exact fun t ht => h t (ρ.rely_trans hs ht)
  | call q k => exact fun t ht => h t (ρ.rely_trans hs ht)

theorem wp_mono {c : Resumption Q R α} {Φ Ψ : α → σ → Prop} (hΦ : ∀ a s, Φ a s → Ψ a s) {s : σ}
    (h : wp ρ c Φ s) : wp ρ c Ψ s := by
  induction c generalizing s with
  | pure a => exact fun t ht => hΦ a t (h t ht)
  | call q k ih =>
    intro t ht
    obtain ⟨hask, hans⟩ := h t ht
    refine ⟨hask, fun r u hu => ?_⟩
    obtain ⟨hkeep, hk⟩ := hans r u hu
    exact ⟨hkeep, ih r hk⟩

theorem wp_bind {c : Resumption Q R α} {f : α → Resumption Q R β} {Φ : β → σ → Prop} {s : σ}
    (h : wp ρ c (fun a => wp ρ (f a) Φ) s) : wp ρ (c >>= f) Φ s := by
  induction c generalizing s with
  | pure a => exact h s (ρ.rely_refl s)
  | call q k ih =>
    intro t ht
    obtain ⟨hask, hans⟩ := h t ht
    refine ⟨hask, fun r u hu => ?_⟩
    obtain ⟨hkeep, hk⟩ := hans r u hu
    exact ⟨hkeep, ih r hk⟩

theorem wp_value {Φ : α → σ → Prop} {a : α} {s : σ} (h : wp ρ (.pure a) Φ s) : Φ a s :=
  h s (ρ.rely_refl s)

theorem wp_ask {Φ : α → σ → Prop} {q : Q} {k : R q → Resumption Q R α} {s : σ}
    (h : wp ρ (.call q k) Φ s) : ρ.ask q s :=
  (h s (ρ.rely_refl s)).1

theorem wp_answer {Φ : α → σ → Prop} {q : Q} {k : R q → Resumption Q R α} {s s' : σ} {r : R q}
    (h : wp ρ (.call q k) Φ s) (hr : ρ.answer q r s s') :
    ρ.keep s s' ∧ wp ρ (k r) Φ s' :=
  (h s (ρ.rely_refl s)).2 r s' hr

/-! ## all questions -/

/-- `P` holds of every question the computation may ask, whatever the answers are -/
def Asks (P : Q → Prop) : Resumption Q R α → Prop
  | .pure _ => True
  | .call q k => P q ∧ ∀ r, (k r).Asks P

theorem Asks.bind {P : Q → Prop} {c : Resumption Q R α} {f : α → Resumption Q R β} (hc : c.Asks P)
    (hf : ∀ a, (f a).Asks P) : (c >>= f).Asks P := by
  induction c with
  | pure a => exact hf a
  | call q k ih => exact ⟨hc.1, fun r => ih r (hc.2 r)⟩

theorem Asks.mono {P P' : Q → Prop} (hP : ∀ q, P q → P' q) {c : Resumption Q R α} (hc : c.Asks P) :
    c.Asks P' := by
  induction c with
  | pure a => trivial
  | call q k ih => exact ⟨hP q hc.1, fun r => ih r (hc.2 r)⟩

theorem Asks.next {P : Q → Prop} {c : Resumption Q R α} (hc : c.Asks P)
    {n : (q : Q) × (R q → Resumption Q R α)} (hn : c.pending? = some n) :
    P n.1 ∧ ∀ r, (n.2 r).Asks P := by
  rw [pending?_eq_some hn] at hc
  exact hc

theorem wp_of_asks {P : Q → Prop} (hask : ∀ q s, P q → ρ.ask q s) (hkeep : ∀ s s', ρ.keep s s')
    {c : Resumption Q R α} (h : c.Asks P) (s : σ) : wp ρ c (fun _ _ => True) s := by
  induction c generalizing s with
  | pure a => exact fun _ _ => trivial
  | call q k ih => exact fun s' _ => ⟨hask q s' h.1, fun r s'' _ => ⟨hkeep s' s'', ih r (h.2 r) s''⟩⟩

/-! ## last questions -/

/-- a question whose answer is `final` is the last one, and the value then satisfies `P` -/
def Last (final : (q : Q) → R q → Prop) (P : α → Prop) : Resumption Q R α → Prop
  | .pure _ => True
  | .call q k => ∀ r, (final q r → ∃ a, k r = .pure a ∧ P a) ∧ (k r).Last final P

section
variable {final : (q : Q) → R q → Prop} {P : α → Prop} {P' : β → Prop}

theorem Last.of_asks {c : Resumption Q R α} (h : c.Asks fun q => ∀ r, ¬ final q r) :
    c.Last final P := by
  induction c with
  | pure a => trivial
  | call q k ih => exact fun r => ⟨fun hr => absurd hr (h.1 r), ih r (h.2 r)⟩

theorem Last.bind {c : Resumption Q R α} {f : α → Resumption Q R β}
    (hc : c.Last final fun a => ∃ b, f a = .pure b ∧ P' b) (hf : ∀ a, (f a).Last final P') :
    (c >>= f).Last final P' := by
  induction c with
  | pure a => exact hf a
  | call q k ih =>
    refine fun r => ⟨fun hr => ?_, ih r (hc r).2⟩
    obtain ⟨a, hk, b, hb, hP⟩ := (hc r).1 hr
    refine ⟨b, ?_, hP⟩
    show (k r >>= f) = .pure b
    rw [hk, pure_bind, hb]

theorem Last.next {c : Resumption Q R α} (hc : c.Last final P)
    {n : (q : Q) × (R q → Resumption Q R α)} (hn : c.pending? = some n) (r : R n.1) :
    (final n.1 r → ∃ a, n.2 r = .pure a ∧ P a) ∧ (n.2 r).Last final P := by
  rw [pending?_eq_some hn] at hc
  exact hc r

end

/-! ## what is left of a resumption -/

/-- `c` is what is left of `c₀` after some answers -/
inductive Residual (c₀ : Resumption Q R α) : Resumption Q R α → Prop where
  | refl : Residual c₀ c₀
  | answer {q : Q} {k : R q → Resumption Q R α} (r : R q) : Residual c₀ (.call q k) →
      Residual c₀ (k r)

theorem residual_pure {a : α} {c : Resumption Q R α} (h : Residual (.pure a) c) : c = .pure a := by
  induction h with
  | refl => rfl
  | answer r _ ih => cases ih

theorem residual_call {q : Q} {k : R q → Resumption Q R α} {c : Resumption Q R α}
    (h : Residual (.call q k) c) : c = .call q k ∨ ∃ r, Residual (k r) c := by
  induction h with
  | refl => exact .inl rfl
  | @answer q' k' r _ ih =>
    rcases ih with heq | ⟨r', h'⟩
    · cases heq
      exact .inr ⟨r, .refl⟩
    · exact .inr ⟨r', .answer r h'⟩

section
variable {σ : Type} {ρ : Rules Q R σ}

theorem wp_residual (htotal : ∀ q r s, ∃ s', ρ.answer q r s s') {c₀ c : Resumption Q R α}
    {Φ : α → σ → Prop} {s₀ : σ} (h : wp ρ c₀ Φ s₀) (hc : Residual c₀ c) : ∃ s, wp ρ c Φ s := by
  induction hc with
  | refl => exact ⟨s₀, h⟩
  | answer r _ ih =>
    obtain ⟨s, hs⟩ := ih
    obtain ⟨s', hs'⟩ := htotal _ r s
    exact ⟨s', (wp_answer hs hs').2⟩

theorem asks_of_wp {P : Q → Prop} {I : σ → Prop} (hask : ∀ q s, I s → ρ.ask q s → P q)
    (hans : ∀ q r s, I s → ∃ s', ρ.answer q r s s' ∧ I s') {c : Resumption Q R α}
    {Φ : α → σ → Prop} {s : σ} (h : wp ρ c Φ s) (hI : I s) : c.Asks P := by
  induction c generalizing s with
  | pure a => trivial
  | call q k ih =>
    refine ⟨hask q s hI (wp_ask h), fun r => ?_⟩
    obtain ⟨s', hs', hI'⟩ := hans q r s hI
    exact ih r (wp_answer h hs').2 hI'

end

/-! ## computations that may raise -/

theorem run_bind {ε : Type} (c : ExceptT ε (Resumption Q R) α)
    (f : α → ExceptT ε (Resumption Q R) β) :
    (c >>= f).run = (c.run >>= fun r => match r with
      | .ok a => (f a).run
      | .error e => .pure (.error e)) := by
  show bind _ _ = bind _ _
  congr 1
  funext r
  cases r <;> rfl

theorem Asks.run_bind {ε : Type} {P : Q → Prop} {c : ExceptT ε (Resumption Q R) α}
    {f : α → ExceptT ε (Resumption Q R) β} (hc : c.run.Asks P) (hf : ∀ a, (f a).run.Asks P) :
    (c >>= f).run.Asks P := by
  rw [Resumption.run_bind]
  refine hc.bind fun r => ?_
  cases r with
  | ok a => exact hf a
  | error e => trivial

theorem Last.run_bind {ε : Type} {final : (q : Q) → R q → Prop} {P : Except ε β → Prop}
    {c : ExceptT ε (Resumption Q R) α} {f : α → ExceptT ε (Resumption Q R) β}
    (hc : c.run.Last final fun r => ∃ b, (match r with
      | .ok a => (f a).run
      | .error e => .pure (.error e)) = .pure b ∧ P b)
    (hf : ∀ a, (f a).run.Last final P) : (c >>= f).run.Last final P := by
  rw [Resumption.run_bind]
  refine Last.bind hc fun r => ?_
  cases r with
  | ok a => exact hf a
  | error e => trivial

/-- what is asked first, then what is asked next; a computation that raises asks nothing more -/
def andThen {ε : Type} (first : List Q × Except ε α) (next : α → List Q × Except ε β) :
    List Q × Except ε β :=
  match first with
  | (asked, .ok a) => (asked ++ (next a).1, (next a).2)
  | (asked, .error e) => (asked, .error e)

theorem answered_run_bind {ε : Type} (reply : (q : Q) → R q) (c : ExceptT ε (Resumption Q R) α)
    (f : α → ExceptT ε (Resumption Q R) β) :
    (c >>= f).run.answered reply
      = andThen (c.run.answered reply) fun a => (f a).run.answered reply := by
  rw [run_bind]
  induction c.run with
  | pure r => cases r <;> rfl
  | call q k ih =>
    rw [call_bind, answered, answered, ih (reply q)]
    cases (k (reply q)).answered reply with
    | mk asked r => cases r <;> rfl

theorem wp_run_bind {ε : Type} {c : ExceptT ε (Resumption Q R) α}
    {f : α → ExceptT ε (Resumption Q R) β} {Φ : Except ε β → σ → Prop} {s : σ}
    (h : wp ρ c.run (fun r s => wp ρ (match r with
      | .ok a => (f a).run
      | .error e => .pure (.error e)) Φ s) s) : wp ρ (c >>= f).run Φ s := by
  rw [run_bind]
  exact wp_bind h

end
end Resumption
