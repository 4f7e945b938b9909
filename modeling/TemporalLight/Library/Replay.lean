import Mathlib.Data.List.Infix
import Mathlib.Data.List.TakeDrop
import Mathlib.Data.Int.Order.Basic

/-!
# The log of a program that is replayed

A program performs steps, one after another.  The step that comes after the values `vs` leaves a
BLOCK of events in a log and delivers a value; an execution may stop anywhere, also within a block,
and the next one starts again from what the log tells.  A `Grammar` says which blocks a step may
leave (`block vs b v`) and what it may have left so far (`opened vs b`).

* `Steps vs l`       `l` is the log of the steps that have delivered `vs`
* `Rest vs l`        `l` may follow such a log: complete blocks, then perhaps an open one
* `Steps.prefix_or`  executions that have read the same log have delivered the same values
* `Rest.at`          the events of one step are a block, or the open one
* `Rest.steps_at`    an event belongs to the step after some values that the log tells
-/

theorem List.first_of_prefix {α : Type} {p : α → Bool} {l l' m : List α} {a a' : α}
    (hl : ∀ x ∈ l, p x = false) (hl' : ∀ x ∈ l', p x = false) (ha : p a = true)
    (ha' : p a' = true) (h : l ++ [a] <+: m) (h' : l' ++ [a'] <+: m) : l = l' ∧ a = a' := by
  have hfirst : ∀ {l : List α} {a : α} {t : List α}, (∀ x ∈ l, p x = false) → p a = true →
      (l ++ [a] ++ t).takeWhile (fun x => !p x) = l ∧ (l ++ [a] ++ t).find? p = some a := by
    intro l a t hl ha
    rw [List.append_assoc, List.takeWhile_append_of_pos fun x hx => by simp [hl x hx],
      List.find?_append, List.find?_eq_none.mpr fun x hx => by simp [hl x hx]]
    simp [ha]
  obtain ⟨t, rfl⟩ := h
  obtain ⟨t', heq⟩ := h'
  have h₁ := hfirst (t := t) hl ha
  have h₂ := hfirst (t := t') hl' ha'
  rw [heq] at h₂
  exact ⟨h₁.1.symm.trans h₂.1, Option.some.inj (h₁.2.symm.trans h₂.2)⟩

structure Grammar (V E : Type) where
  /-- the step an event belongs to -/
  index : E → ℤ
  block : List V → List E → V → Prop
  opened : List V → List E → Prop
  index_block : ∀ {vs : List V} {b : List E} {v : V}, block vs b v → ∀ e ∈ b, index e = vs.length
  index_opened : ∀ {vs : List V} {b : List E}, opened vs b → ∀ e ∈ b, index e = vs.length

namespace Grammar
variable {V E : Type} (G : Grammar V E)

inductive Steps : List V → List E → Prop where
  | nil : Steps [] []
  | snoc {vs : List V} {l b : List E} {v : V} : Steps vs l → G.block vs b v →
      Steps (vs ++ [v]) (l ++ b)

inductive Rest : List V → List E → Prop where
  | nil (vs : List V) : Rest vs []
  | opened {vs : List V} {b : List E} : G.opened vs b → Rest vs b
  | block {vs : List V} {l b : List E} {v : V} : G.block vs b v → Rest (vs ++ [v]) l →
      Rest vs (b ++ l)

variable {G} {vs vs' : List V} {l l' m : List E}

/-! ## joining -/

theorem Steps.append_rest (h : G.Steps vs l) (h' : G.Rest vs l') : G.Rest [] (l ++ l') := by
  induction h generalizing l' with
  | nil => exact h'
  | snoc _ hb ih =>
    rw [List.append_assoc]
    exact ih (.block hb h')

theorem Steps.mono {G' : Grammar V E} (hb : ∀ vs b v, G.block vs b v → G'.block vs b v)
    (h : G.Steps vs l) : G'.Steps vs l := by
  induction h with
  | nil => exact .nil
  | snoc _ hv ih => exact .snoc ih (hb _ _ _ hv)

theorem Rest.mono {G' : Grammar V E} (hb : ∀ vs b v, G.block vs b v → G'.block vs b v)
    (ho : ∀ vs b, G.opened vs b → G'.opened vs b) (h : G.Rest vs l) : G'.Rest vs l := by
  induction h with
  | nil vs => exact .nil vs
  | opened h => exact .opened (ho _ _ h)
  | block h _ ih => exact .block (hb _ _ _ h) ih

/-! ## the order of the steps -/

theorem Steps.index_lt (h : G.Steps vs l) : ∀ e ∈ l, G.index e < vs.length := by
  induction h with
  | nil => simp
  | snoc _ hb ih =>
    intro e he
    rw [List.length_append, List.length_singleton]
    rcases List.mem_append.mp he with he | he
    · have := ih e he
      omega
    · have := G.index_block hb e he
      omega

theorem Rest.le_index (h : G.Rest vs l) : ∀ e ∈ l, (vs.length : ℤ) ≤ G.index e := by
  induction h with
  | nil vs => simp
  | opened h => exact fun e he => le_of_eq (G.index_opened h e he).symm
  | block h _ ih =>
    intro e he
    rcases List.mem_append.mp he with he | he
    · exact le_of_eq (G.index_block h e he).symm
    · have := ih e he
      rw [List.length_append, List.length_singleton] at this
      omega

theorem Rest.sorted (h : G.Rest vs l) : l.Pairwise fun a b => G.index a ≤ G.index b := by
  have hequal : ∀ (us : List V) (b : List E), (∀ e ∈ b, G.index e = us.length) →
      b.Pairwise fun a b => G.index a ≤ G.index b := fun us b hb =>
    List.pairwise_of_forall_mem_list fun a ha c hc => le_of_eq ((hb a ha).trans (hb c hc).symm)
  induction h with
  | nil vs => exact .nil
  | opened h => exact hequal _ _ (G.index_opened h)
  | block h hrest ih =>
    refine List.pairwise_append.mpr ⟨hequal _ _ (G.index_block h), ih, fun a ha c hc => ?_⟩
    have ha := G.index_block h a ha
    have hc := hrest.le_index c hc
    rw [List.length_append, List.length_singleton] at hc
    omega

/-- **The events of one step.** -/
theorem Rest.at (h : G.Rest vs l) {i : ℕ} (hi : vs.length ≤ i) :
    l.filter (fun e => G.index e == (i : ℤ)) = []
    ∨ ∃ us : List V, us.length = i
      ∧ ((∃ v, G.block us (l.filter fun e => G.index e == (i : ℤ)) v)
        ∨ (G.opened us (l.filter fun e => G.index e == (i : ℤ)) ∧ ∀ e ∈ l, G.index e ≤ i)) := by
  have hall : ∀ (us : List V) (b : List E), (∀ e ∈ b, G.index e = us.length) → us.length = i →
      b.filter (fun e => G.index e == (i : ℤ)) = b := fun us b hb hus =>
    List.filter_eq_self.mpr fun e he => by simp [hb e he, hus]
  have hnone : ∀ (us : List V) (b : List E), (∀ e ∈ b, G.index e = us.length) → us.length ≠ i →
      b.filter (fun e => G.index e == (i : ℤ)) = [] := fun us b hb hus =>
    List.filter_eq_nil_iff.mpr fun e he => by
      rw [hb e he, beq_iff_eq]
      omega
  induction h with
  | nil vs => exact .inl rfl
  | @opened vs b h =>
    have hb := G.index_opened h
    by_cases hvs : vs.length = i
    · refine .inr ⟨vs, hvs, .inr ⟨by rwa [hall vs b hb hvs], fun e he => ?_⟩⟩
      exact le_of_eq ((hb e he).trans (by rw [hvs]))
    · exact .inl (hnone vs b hb hvs)
  | @block vs l b v h hrest ih =>
    have hb := G.index_block h
    rw [List.filter_append]
    by_cases hvs : vs.length = i
    · have hl : l.filter (fun e => G.index e == (i : ℤ)) = [] :=
        List.filter_eq_nil_iff.mpr fun e he heq => by
          have := hrest.le_index e he
          rw [List.length_append, List.length_singleton, beq_iff_eq.mp heq] at this
          omega
      rw [hl, hall vs b hb hvs, List.append_nil]
      exact .inr ⟨vs, hvs, .inl ⟨v, h⟩⟩
    · rw [hnone vs b hb hvs, List.nil_append]
      rcases ih (by rw [List.length_append, List.length_singleton]; omega) with h | ⟨us, hus, h⟩
      · exact .inl h
      · refine .inr ⟨us, hus, h.imp_right fun ⟨ho, hle⟩ => ⟨ho, fun e he => ?_⟩⟩
        rcases List.mem_append.mp he with he | he
        · have := hb e he
          omega
        · exact hle e he

theorem Rest.steps_at {l₀ : List E} (hpre : G.Steps vs l₀) (h : G.Rest vs l) {e : E} (he : e ∈ l) :
    ∃ us done b, G.Steps us done ∧ done <+: l₀ ++ l ∧ e ∈ b
      ∧ ((∃ v, G.block us b v) ∨ G.opened us b) := by
  induction h generalizing l₀ with
  | nil vs => cases he
  | @opened vs b h => exact ⟨vs, l₀, b, hpre, List.prefix_append l₀ b, he, .inr h⟩
  | @block vs l b v h _ ih =>
    rcases List.mem_append.mp he with he | he
    · exact ⟨vs, l₀, b, hpre, List.prefix_append l₀ (b ++ l), he, .inl ⟨v, h⟩⟩
    · rw [← List.append_assoc]
      exact ih (.snoc hpre h) he

/-! ## one log, one sequence of values -/

/-- a step has left at most one block at the start of `m` -/
def Unambiguous (G : Grammar V E) : Prop := ∀ (vs : List V) (b b' m : List E) (v v' : V),
  G.block vs b v → G.block vs b' v' → b <+: m → b' <+: m → b = b' ∧ v = v'

theorem Steps.eq_nil (h : G.Steps [] l) : l = [] := by
  generalize hus : ([] : List V) = us at h
  cases h with
  | nil => rfl
  | snoc _ _ => simp at hus

theorem Steps.snoc_inv {v : V} (h : G.Steps (vs ++ [v]) l) :
    ∃ l₁ b, G.Steps vs l₁ ∧ G.block vs b v ∧ l = l₁ ++ b := by
  generalize hus : vs ++ [v] = us at h
  cases h with
  | nil => simp at hus
  | @snoc us l b u h hb =>
    obtain ⟨rfl, hv⟩ := List.append_inj' hus rfl
    obtain rfl : v = u := by simpa using hv
    exact ⟨l, b, h, hb, rfl⟩

theorem Steps.split {us ws : List V} {v : V} (h : G.Steps us l) (hus : us = vs ++ v :: ws) :
    ∃ l₁ b l₂, G.Steps vs l₁ ∧ G.block vs b v ∧ l = l₁ ++ b ++ l₂ := by
  induction h generalizing ws with
  | nil => simp at hus
  | @snoc us l b u h hb ih =>
    rcases List.eq_nil_or_concat ws with rfl | ⟨ws', u', rfl⟩
    · obtain ⟨rfl, hv⟩ := List.append_inj' hus rfl
      obtain rfl : u = v := by simpa using hv
      exact ⟨l, b, [], h, hb, by rw [List.append_nil]⟩
    · rw [List.concat_eq_append, ← List.cons_append, ← List.append_assoc] at hus
      obtain ⟨hus, -⟩ := List.append_inj' hus rfl
      obtain ⟨l₁, b', l₂, h₁, hb', rfl⟩ := ih hus
      exact ⟨l₁, b', l₂ ++ b, h₁, hb', by simp [List.append_assoc]⟩

theorem Steps.unique (hG : G.Unambiguous) (h : G.Steps vs l) (h' : G.Steps vs l') (hl : l <+: m)
    (hl' : l' <+: m) : l = l' := by
  induction h generalizing l' with
  | nil => exact h'.eq_nil.symm
  | @snoc vs l b v h hb ih =>
    obtain ⟨l₁, b', h₁, hb', rfl⟩ := h'.snoc_inv
    obtain rfl := ih h₁ ((List.prefix_append l b).trans hl) ((List.prefix_append l₁ b').trans hl')
    obtain ⟨m', rfl⟩ := (List.prefix_append l b).trans hl
    rw [(hG vs b b' m' v v hb hb' ((List.prefix_append_right_inj l).mp hl)
      ((List.prefix_append_right_inj l).mp hl')).1]

/-- **Executions that have read one log have delivered the same values.** -/
theorem Steps.prefix_or (hG : G.Unambiguous) (h : G.Steps vs l) (h' : G.Steps vs' l')
    (hl : l <+: m) (hl' : l' <+: m) : vs <+: vs' ∨ vs' <+: vs := by
  induction h with
  | nil => exact .inl (List.nil_prefix)
  | @snoc vs l b v h hb ih =>
    have hlm := (List.prefix_append l b).trans hl
    rcases ih hlm with ⟨ws, rfl⟩ | hpre
    · cases ws with
      | nil =>
        rw [List.append_nil]
        exact .inr (List.prefix_append vs [v])
      | cons u ws =>
        obtain ⟨l₁, b', l₂, h₁, hb', rfl⟩ := h'.split rfl
        have hl₁ : l₁ ++ b' <+: m := (List.prefix_append (l₁ ++ b') l₂).trans hl'
        obtain rfl := h.unique hG h₁ hlm ((List.prefix_append l₁ b').trans hl₁)
        obtain ⟨m', rfl⟩ := hlm
        obtain ⟨-, rfl⟩ := hG vs b b' m' v u hb hb' ((List.prefix_append_right_inj l).mp hl)
          ((List.prefix_append_right_inj l).mp hl₁)
        exact .inl ⟨ws, by simp⟩
    · exact .inr (hpre.trans (List.prefix_append vs [v]))

theorem Steps.agree (hG : G.Unambiguous) (h : G.Steps vs l) (h' : G.Steps vs' l')
    (hl : l <+: m) (hl' : l' <+: m) {i : ℕ} {v v' : V} (hv : vs[i]? = some v)
    (hv' : vs'[i]? = some v') : v = v' := by
  rcases h.prefix_or hG h' hl hl' with ⟨ws, rfl⟩ | ⟨ws, rfl⟩
  · rw [List.getElem?_append_left (List.getElem?_eq_some_iff.mp hv).1, hv] at hv'
    exact Option.some.inj hv'
  · rw [List.getElem?_append_left (List.getElem?_eq_some_iff.mp hv').1, hv'] at hv
    exact (Option.some.inj hv).symm

end Grammar
