import TemporalLight.Library.Runs
import Mathlib.Tactic.Tauto

/-!
# The recovering process pool (worker/activity_pool.py)

`RecoveringProcessPoolExecutor` holds one `ProcessPoolExecutor` at a time and replaces it when it is
broken: `submit` when the pool refuses the work, and `mark_broken` when an activity has received a
`BrokenProcessPool`.  A breakage fails all futures of the pool, so it is reported once by every
activity that was in flight, and `mark_broken` does not ask which pool the report is about.

A `ProcessPoolExecutor` is taken as documented: `shutdown(cancel_futures=True)` cancels the work that
waits to be started, and nothing else.

* `inv_step`          a broken pool has no unfinished work
* `healthy_kept`      no work is cancelled, if and only if no report finds work that waits to be
                      started in the current pool
* `report_cancels`    the second report of one breakage cancels work of the new pool
-/

namespace TemporalLight
open Runs

/-- what has become of a future; `failed` is a `BrokenProcessPool` -/
inductive FutureState where
  | pending
  | running
  | finished
  | failed
  | cancelled
  deriving DecidableEq

/-- a call of `submit`, with the pool that has accepted it; `reported` if its activity has called
`mark_broken` -/
structure WorkItem where
  pool : Nat
  state : FutureState
  reported : Bool
  deriving DecidableEq

/-- a `RecoveringProcessPoolExecutor`: all pools that it has made, the current one, and all work -/
structure Pools where
  broken : List Bool
  executor : Nat
  items : List WorkItem

namespace Pools

/-- `__init__` -/
def initial : Pools := ⟨[false], 0, []⟩

def isBroken (s : Pools) (pool : Nat) : Bool := s.broken[pool]? == some true

/-- the item waits to be started in this pool -/
def waitsIn (pool : Nat) (item : WorkItem) : Bool := item.pool == pool && item.state == .pending

/-- the item is unfinished work of this pool -/
def worksIn (pool : Nat) (item : WorkItem) : Bool :=
  item.pool == pool && (item.state == .pending || item.state == .running)

/-- `shutdown(wait=False, cancel_futures=True)` -/
def shutdown (s : Pools) (pool : Nat) : Pools :=
  { s with items := s.items.map fun item =>
      if waitsIn pool item then { item with state := .cancelled } else item }

/-- `_replace_pool` -/
def replacePool (s : Pools) : Pools :=
  { s.shutdown s.executor with broken := s.broken ++ [false], executor := s.broken.length }

/-- the `submit` of the current pool, when it is not broken -/
def accept (s : Pools) : Pools :=
  { s with items := s.items ++ [⟨s.executor, .pending, false⟩] }

/-- `submit` -/
def submit (s : Pools) : Pools :=
  if s.isBroken s.executor then s.replacePool.accept else s.accept

/-- `mark_broken` -/
def markBroken (s : Pools) : Pools := s.replacePool

/-- the pool finds a dead process: all its futures fail -/
def breakPool (s : Pools) (pool : Nat) : Pools :=
  { s with
    broken := s.broken.set pool true,
    items := s.items.map fun item =>
      if worksIn pool item then { item with state := .failed } else item }

def setItem (s : Pools) (k : Nat) (item : WorkItem) : Pools :=
  { s with items := s.items.set k item }

inductive Label where
  | submit
  | start (k : Nat)
  | finish (k : Nat)
  | breakPool (pool : Nat)
  | markBroken (k : Nat)

def step (s : Pools) : Label → Option Pools
  | .submit => some s.submit
  | .start k => s.items[k]?.bind fun item =>
      if item.state == .pending then some (s.setItem k { item with state := .running }) else none
  | .finish k => s.items[k]?.bind fun item =>
      if item.state == .running then some (s.setItem k { item with state := .finished }) else none
  | .breakPool pool =>
    if s.broken[pool]? == some false then some (s.breakPool pool) else none
  -- an activity reports its own `BrokenProcessPool`
  | .markBroken k => s.items[k]?.bind fun item =>
      if item.state == .failed && !item.reported then
        some (s.setItem k { item with reported := true }).markBroken
      else none

def findsNoWork (s : Pools) : Label → Bool
  | .markBroken _ => s.items.all fun item => !waitsIn s.executor item
  | _ => true

/-! ## a broken pool has no work -/

structure Inv (s : Pools) : Prop where
  executor : s.executor < s.broken.length
  failed : ∀ item ∈ s.items, s.isBroken item.pool = true → worksIn item.pool item = false

variable {s s' : Pools}

theorem waitsIn_of_worksIn {pool : Nat} {item : WorkItem} (h : worksIn pool item = false) :
    waitsIn pool item = false := by
  simp only [worksIn, waitsIn, Bool.and_eq_false_iff, Bool.or_eq_false_iff] at h ⊢
  tauto

theorem worksIn_pool {pool : Nat} {item : WorkItem} (h : waitsIn pool item = true) :
    item.pool = pool := by
  simp only [waitsIn, Bool.and_eq_true, beq_iff_eq] at h
  exact h.1

theorem Inv.findsNoWork (h : s.Inv) (hbroken : s.isBroken s.executor = true) {item : WorkItem}
    (hitem : item ∈ s.items) : waitsIn s.executor item = false := by
  cases hwaits : waitsIn s.executor item with
  | false => rfl
  | true =>
    have hpool := worksIn_pool hwaits
    rw [← hpool] at hbroken hwaits
    rw [waitsIn_of_worksIn (h.failed item hitem hbroken)] at hwaits
    cases hwaits

theorem isBroken_of_append {broken : List Bool} {pool : Nat}
    (h : ((broken ++ [false])[pool]? == some true) = true) : (broken[pool]? == some true) = true := by
  rcases Nat.lt_trichotomy pool broken.length with hlt | rfl | hlt
  · rwa [List.getElem?_append_left hlt] at h
  · rw [List.getElem?_concat_length] at h
    cases h
  · rw [List.getElem?_eq_none (by simp; omega)] at h
    cases h

theorem inv_initial : initial.Inv where
  executor := Nat.zero_lt_one
  failed := nofun

theorem Inv.setItem (h : s.Inv) {k : Nat} {item : WorkItem} (hk : s.items[k]? = some item)
    (item' : WorkItem) (hpool : item'.pool = item.pool)
    (hworks : worksIn item.pool item' = true → worksIn item.pool item = true) :
    (s.setItem k item').Inv where
  executor := h.executor
  failed a ha hbroken := by
    rcases List.mem_or_eq_of_mem_set ha with ha | rfl
    · exact h.failed a ha hbroken
    · have hbroken : s.isBroken a.pool = true := hbroken
      rw [hpool] at hbroken ⊢
      have hitem := h.failed item (List.mem_of_getElem? hk) hbroken
      exact Bool.eq_false_iff.mpr fun hw => by simp [hworks hw] at hitem

theorem Inv.replacePool (h : s.Inv) : s.replacePool.Inv where
  executor := by
    show s.broken.length < (s.broken ++ [false]).length
    rw [List.length_append]
    exact Nat.lt_succ_self _
  failed a ha hbroken := by
    obtain ⟨b, hb, rfl⟩ := List.mem_map.mp ha
    have hfailed := fun hbroken => h.failed b hb (isBroken_of_append hbroken)
    by_cases hwaits : waitsIn s.executor b = true
    · rw [if_pos hwaits]
      simp [worksIn]
    · rw [if_neg hwaits] at hbroken ⊢
      exact hfailed hbroken

theorem Inv.accept (h : s.Inv) (hbroken : s.isBroken s.executor = false) : s.accept.Inv where
  executor := h.executor
  failed a ha hb := by
    rcases List.mem_append.mp ha with ha | ha
    · exact h.failed a ha hb
    · obtain rfl := List.mem_singleton.mp ha
      exact absurd (hb.symm.trans hbroken) (by decide)

theorem replacePool_unbroken : s.replacePool.isBroken s.replacePool.executor = false := by
  show ((s.broken ++ [false])[s.broken.length]? == some true) = false
  rw [List.getElem?_concat_length]
  rfl

theorem inv_submit (h : s.Inv) : s.submit.Inv := by
  unfold submit
  split
  · exact h.replacePool.accept replacePool_unbroken
  · rename_i hbroken
    exact h.accept (Bool.eq_false_iff.mpr hbroken)

theorem Inv.breakPool (h : s.Inv) (pool : Nat) : (s.breakPool pool).Inv where
  executor := by
    show s.executor < (s.broken.set pool true).length
    rw [List.length_set]
    exact h.executor
  failed a ha hbroken := by
    obtain ⟨b, hb, rfl⟩ := List.mem_map.mp ha
    by_cases hworks : worksIn pool b = true
    · rw [if_pos hworks]
      simp [worksIn]
    · rw [if_neg hworks] at hbroken ⊢
      rw [Bool.not_eq_true] at hworks
      by_cases hpool : b.pool = pool
      · rw [hpool]
        exact hworks
      · refine h.failed b hb ?_
        have hset : ((s.broken.set pool true)[b.pool]? == some true) = true := hbroken
        rwa [List.getElem?_set_ne (Ne.symm hpool)] at hset

/-- a step is a submission, the start or the end of some work, a breakage, or a report -/
theorem step_cases {l : Label} (h : s.step l = some s') :
    (l = .submit ∧ s' = s.submit)
    ∨ (∃ k item, s.items[k]? = some item ∧ item.state = .pending ∧ l = .start k
      ∧ s' = s.setItem k { item with state := .running })
    ∨ (∃ k item, s.items[k]? = some item ∧ item.state = .running ∧ l = .finish k
      ∧ s' = s.setItem k { item with state := .finished })
    ∨ (∃ pool, l = .breakPool pool ∧ s' = s.breakPool pool)
    ∨ ∃ k item, s.items[k]? = some item ∧ item.state = .failed ∧ item.reported = false
      ∧ l = .markBroken k ∧ s' = (s.setItem k { item with reported := true }).replacePool := by
  cases l with
  | submit => exact .inl ⟨rfl, (Option.some.inj h).symm⟩
  | start k =>
    obtain ⟨item, hk, h⟩ := Option.bind_eq_some_iff.mp h
    obtain ⟨hstate, h⟩ := Option.ite_none_right_eq_some.mp h
    exact .inr (.inl ⟨k, item, hk, beq_iff_eq.mp hstate, rfl, (Option.some.inj h).symm⟩)
  | finish k =>
    obtain ⟨item, hk, h⟩ := Option.bind_eq_some_iff.mp h
    obtain ⟨hstate, h⟩ := Option.ite_none_right_eq_some.mp h
    exact .inr (.inr (.inl ⟨k, item, hk, beq_iff_eq.mp hstate, rfl, (Option.some.inj h).symm⟩))
  | breakPool pool =>
    obtain ⟨-, h⟩ := Option.ite_none_right_eq_some.mp h
    exact .inr (.inr (.inr (.inl ⟨pool, rfl, (Option.some.inj h).symm⟩)))
  | markBroken k =>
    obtain ⟨item, hk, h⟩ := Option.bind_eq_some_iff.mp h
    obtain ⟨hstate, h⟩ := Option.ite_none_right_eq_some.mp h
    obtain ⟨hfailed, hreported⟩ := Bool.and_eq_true_iff.mp hstate
    exact .inr (.inr (.inr (.inr ⟨k, item, hk, beq_iff_eq.mp hfailed,
      by simpa using hreported, rfl, (Option.some.inj h).symm⟩)))

theorem inv_step {l : Label} (h : s.Inv) (hstep : s.step l = some s') : s'.Inv := by
  rcases step_cases hstep with ⟨-, rfl⟩ | ⟨k, item, hk, hstate, -, rfl⟩
      | ⟨k, item, hk, -, -, rfl⟩ | ⟨pool, -, rfl⟩ | ⟨k, item, hk, -, -, -, rfl⟩
  · exact inv_submit h
  · exact h.setItem hk _ rfl fun _ => by simp [worksIn, hstate]
  · exact h.setItem hk _ rfl fun hworks => by simp [worksIn] at hworks
  · exact h.breakPool pool
  · exact (h.setItem hk { item with reported := true } rfl id).replacePool

theorem inv_ok {ok : Pools → Label → Prop} (hs : Reach step ok initial s) : s.Inv :=
  Reach.invariant inv_initial (fun _ _ _ h _ hstep => inv_step h hstep) hs

/-! ## cancelled work -/

def Uncancelled (s : Pools) : Prop := ∀ item ∈ s.items, item.state ≠ .cancelled

theorem forall_setItem {P : WorkItem → Prop} {k : Nat} {item : WorkItem}
    (hk : s.items[k]? = some item) (item' : WorkItem) (hP : P item' ↔ P item) :
    (∀ a ∈ (s.setItem k item').items, P a) ↔ ∀ a ∈ s.items, P a := by
  obtain ⟨hlt, -⟩ := List.getElem?_eq_some_iff.mp hk
  refine ⟨fun h a ha => ?_, fun h a ha => ?_⟩
  · obtain ⟨j, hj⟩ := List.mem_iff_getElem?.mp ha
    by_cases hjk : j = k
    · subst hjk
      obtain rfl := Option.some.inj (hk.symm.trans hj)
      exact hP.mp (h item' (List.mem_iff_getElem?.mpr ⟨j, List.getElem?_set_self hlt⟩))
    · refine h a (List.mem_iff_getElem?.mpr ⟨j, ?_⟩)
      exact (List.getElem?_set_ne (Ne.symm hjk)).trans hj
  · rcases List.mem_or_eq_of_mem_set ha with ha | rfl
    · exact h a ha
    · exact hP.mpr (h item (List.mem_of_getElem? hk))

theorem uncancelled_replacePool :
    s.replacePool.Uncancelled ↔
      s.Uncancelled ∧ ∀ item ∈ s.items, waitsIn s.executor item = false := by
  refine ⟨fun h => ⟨fun item hitem => ?_, fun item hitem => ?_⟩, fun ⟨h, hnone⟩ item hitem => ?_⟩
  · have hkept := h _ (List.mem_map_of_mem hitem)
    split at hkept
    · exact absurd rfl hkept
    · exact hkept
  · have hkept := h _ (List.mem_map_of_mem hitem)
    cases hwaits : waitsIn s.executor item with
    | false => rfl
    | true =>
      rw [if_pos hwaits] at hkept
      exact absurd rfl hkept
  · obtain ⟨a, ha, rfl⟩ := List.mem_map.mp hitem
    rw [hnone a ha]
    exact h a ha

theorem uncancelled_accept : s.accept.Uncancelled ↔ s.Uncancelled := by
  refine ⟨fun h item hitem => h item (List.mem_append_left _ hitem), fun h item hitem => ?_⟩
  rcases List.mem_append.mp hitem with hitem | hitem
  · exact h item hitem
  · obtain rfl := List.mem_singleton.mp hitem
    exact nofun

theorem uncancelled_submit (hinv : s.Inv) : s.submit.Uncancelled ↔ s.Uncancelled := by
  unfold submit
  split
  · rename_i hbroken
    rw [uncancelled_accept, uncancelled_replacePool]
    exact and_iff_left fun item hitem => hinv.findsNoWork hbroken hitem
  · exact uncancelled_accept

theorem uncancelled_breakPool {pool : Nat} : (s.breakPool pool).Uncancelled ↔ s.Uncancelled := by
  have hitem : ∀ item : WorkItem, (if worksIn pool item then { item with state := .failed }
      else item).state ≠ .cancelled ↔ item.state ≠ .cancelled := by
    intro item
    by_cases hworks : worksIn pool item = true
    · rw [if_pos hworks]
      refine iff_of_true nofun fun hstate => ?_
      simp [worksIn, hstate] at hworks
    · rw [if_neg hworks]
  refine ⟨fun h a ha => (hitem a).mp (h _ (List.mem_map_of_mem ha)), fun h a ha => ?_⟩
  obtain ⟨b, hb, rfl⟩ := List.mem_map.mp ha
  exact (hitem b).mpr (h b hb)

theorem uncancelled_step {l : Label} (hinv : s.Inv) (hstep : s.step l = some s') :
    s'.Uncancelled ↔ s.Uncancelled ∧ s.findsNoWork l = true := by
  rcases step_cases hstep with ⟨rfl, rfl⟩ | ⟨k, item, hk, hstate, rfl, rfl⟩
      | ⟨k, item, hk, hstate, rfl, rfl⟩ | ⟨pool, rfl, rfl⟩ | ⟨k, item, hk, hstate, -, rfl, rfl⟩
  · exact (uncancelled_submit hinv).trans (and_iff_left rfl).symm
  · have hset : (s.setItem k { item with state := .running }).Uncancelled ↔ s.Uncancelled :=
      forall_setItem hk _ (by simp [hstate])
    exact hset.trans (and_iff_left rfl).symm
  · have hset : (s.setItem k { item with state := .finished }).Uncancelled ↔ s.Uncancelled :=
      forall_setItem hk _ (by simp [hstate])
    exact hset.trans (and_iff_left rfl).symm
  · exact uncancelled_breakPool.trans (and_iff_left rfl).symm
  · have hset : (s.setItem k { item with reported := true }).Uncancelled ↔ s.Uncancelled :=
      forall_setItem hk _ Iff.rfl
    have hwaits : (∀ a ∈ (s.setItem k { item with reported := true }).items,
        waitsIn s.executor a = false) ↔ s.findsNoWork (.markBroken k) = true := by
      refine (forall_setItem hk { item with reported := true } Iff.rfl).trans ?_
      simp [findsNoWork]
    exact uncancelled_replacePool.trans (and_congr hset hwaits)

/-- **No work is ever cancelled, if and only if no report finds work that waits to be started in the
current pool.** -/
theorem healthy_kept {past : List (Pools × Label)}
    (hs : Trace step (fun _ _ => True) initial past s) :
    (∀ item ∈ s.items, item.state ≠ .cancelled) ↔ ∀ p ∈ past, p.1.findsNoWork p.2 = true := by
  induction hs with
  | start => exact iff_of_true nofun nofun
  | @step past s s' l hpast _ hstep ih =>
    have hstep : s'.Uncancelled ↔ s.Uncancelled ∧ s.findsNoWork l = true :=
      uncancelled_step (inv_ok hpast.reach) hstep
    have hcons : (∀ p ∈ (s, l) :: past, p.1.findsNoWork p.2 = true)
        ↔ (∀ p ∈ past, p.1.findsNoWork p.2 = true) ∧ s.findsNoWork l = true := by
      rw [List.forall_mem_cons, and_comm]
    exact hstep.trans ((and_congr_left' ih).trans hcons.symm)

/-! ## one breakage, two reports -/

/-- two items are in flight when the pool breaks; between their reports a third one is submitted -/
def twoReports : List Label :=
  [.submit, .submit, .start 0, .breakPool 0, .markBroken 0, .submit, .markBroken 1]

/-- one item is in flight when the pool breaks, and its report replaces the pool -/
theorem healthy_kept_once : ∃ s : Pools, s.executor = 1 ∧ s.items = [⟨0, .failed, true⟩]
    ∧ ∀ item ∈ s.items, item.state ≠ .cancelled := by
  have hs : Trace step (fun _ _ => True) initial
      [(⟨[true], 0, [⟨0, .failed, false⟩]⟩, .markBroken 0),
        (⟨[false], 0, [⟨0, .pending, false⟩]⟩, .breakPool 0), (initial, .submit)]
      ⟨[true, false], 1, [⟨0, .failed, true⟩]⟩ :=
    .step _ (.step _ (.step _ .start trivial rfl) trivial rfl) trivial rfl
  exact ⟨_, rfl, rfl, (healthy_kept hs).mpr (by decide)⟩

/-- The second report about the first pool cancels the work of the second pool, which has not
broken. -/
theorem report_cancels : ∃ s, Reach step (fun _ _ => True) initial s
    ∧ s.items[2]? = some ⟨1, .cancelled, false⟩ ∧ s.isBroken 1 = false := by
  have hrun : (follow step (fun _ _ => true) initial twoReports).any (fun s =>
      s.items[2]? == some ⟨1, .cancelled, false⟩ && !s.isBroken 1) = true := by
    decide
  obtain ⟨s, hs, h⟩ := Reach.exists_of_follow _ hrun
  obtain ⟨hcancelled, hbroken⟩ := Bool.and_eq_true_iff.mp h
  exact ⟨s, hs.mono fun _ _ _ => trivial, beq_iff_eq.mp hcancelled, by simpa using hbroken⟩

end Pools

end TemporalLight
