import TemporalLight.Heartbeats
import TemporalLight.Settled

/-!
# The scheduler loops of the workers

`run_scheduler_loop` claims workflows and runs them as tasks, at most `worker_concurrency` at a
time.  A `Scheduler` is the state of one such loop between two of its `await`s, and `Fleet` is the
database with its threads together with the loops of all workers: a claim is made by a loop only,
everything else may happen at any time.  A thread that claims a row goes on as the run of the
workflow, so the loop learns of its success later than the thread takes its first steps.

* `loop_ok`                 a turn of the loop keeps track of all that runs for the worker
* `fleet_ok`                so does every step of the fleet
* `capacity`                hence a worker never has more than `worker_concurrency` workflows at
                            hand, sleeps only if it has fewer, and leaves none behind
* `returned_holds_nothing`  and if nothing has crashed it leaves no row locked behind either
-/

namespace TemporalLight
open Runs

/-! ## the loop -/

/-- `_IDLE_POLL_INTERVAL_SECONDS`, in microseconds -/
def idlePollInterval : Int := 1000000

/-- `_AT_CAPACITY_YIELD_SECONDS`, in microseconds -/
def atCapacityYield : Int := 100000

/-- the `await` of `run_scheduler_loop` -/
inductive LoopPhase where
  | idle (wakeAt : Int)
  | atCapacity (wakeAt : Int)
  /-- `claim_next_workflow`, with the thread that has selected a row -/
  | claiming (thread : Option Nat)
  /-- `gather(*active_tasks)` -/
  | draining
  | returned

/-- the local variables of `run_scheduler_loop`; a task is known by its thread -/
structure Scheduler where
  workerConcurrency : Nat
  hadWork : Bool
  activeTasks : List Nat
  phase : LoopPhase

def LoopPhase.thread? : LoopPhase → Option Nat
  | .claiming thread => thread
  | _ => none

section
variable {Val : Type}

/-- `task.done()` -/
def Sys.taskDone (s : Sys Val) (t : Nat) : Bool := !s.isRunning t

/-- a turn of the loop below the idle sleep: reap the finished tasks, then yield or claim -/
def Scheduler.reapAndClaim (s : Sys Val) (c : Scheduler) : Scheduler :=
  let activeTasks := c.activeTasks.filter fun t => !s.taskDone t
  { c with
    activeTasks := activeTasks,
    phase :=
      if c.workerConcurrency ≤ activeTasks.length then .atCapacity (s.clock + atCapacityYield)
      else .claiming none }

/-- a turn of `while True` -/
def Scheduler.loop (s : Sys Val) (c : Scheduler) : Scheduler :=
  if c.hadWork then c.reapAndClaim s
  else { c with phase := .idle (s.clock + idlePollInterval) }

def Scheduler.started (workerConcurrency : Nat) : Scheduler where
  workerConcurrency := workerConcurrency
  hadWork := true
  activeTasks := []
  phase := .claiming none

/-- how an `await` ends -/
inductive LoopEvent where
  | wake
  | claim (row : WorkflowRecord)
  | claimed
  /-- `claim_next_workflow` has looked for a row at the time `now`, and returns `None` -/
  | noClaim (now : Int)
  /-- the loop is cancelled, or `claim_next_workflow` raises -/
  | stop
  | drained

/-- the loop after its `await`, and what becomes of the thread it has waited for -/
def Scheduler.step (s : Sys Val) (worker : String) (c : Scheduler) :
    LoopEvent → Option (Option (Label Val) × Scheduler)
  | .wake => match c.phase with
    | .idle wakeAt => if wakeAt ≤ s.clock then some (none, c.reapAndClaim s) else none
    | .atCapacity wakeAt => if wakeAt ≤ s.clock then some (none, c.loop s) else none
    | _ => none
  | .claim row => match c.phase with
    | .claiming none =>
      some (some (.claim worker row), { c with phase := .claiming (some s.threads.length) })
    | _ => none
  | .claimed => match c.phase with
    | .claiming (some t) =>
      if (s.run? t).isSome then
        some (none, Scheduler.loop s { c with hadWork := true, activeTasks := t :: c.activeTasks })
      else none
    | _ => none
  | .noClaim now => match c.phase with
    | .claiming none =>
      if decide (now ≤ s.clock) && s.workflows.all fun row =>
          !(claimable now row && s.lockable s.threads.length row.workflowId .forUpdate) then
        some (none, Scheduler.loop s { c with hadWork := false })
      else none
    | _ => none
  | .stop => match c.phase with
    -- a claim in flight is rolled back, or has just been made in vain
    | .claiming (some t) =>
      some (if (s.thread? t).isSome then some (.crash t) else none, { c with phase := .draining })
    | .draining => none
    | .returned => none
    | _ => some (none, { c with phase := .draining })
  | .drained => match c.phase with
    | .draining =>
      if c.activeTasks.all s.taskDone then some (none, { c with phase := .returned }) else none
    | _ => none

/-! ## the fleet -/

structure Fleet (Val : Type) where
  sys : Sys Val
  schedulers : String → Option Scheduler

inductive FleetLabel (Val : Type) where
  | sys (l : Label Val)
  | start (worker : String) (workerConcurrency : Nat)
  | loop (worker : String) (event : LoopEvent)

def Label.isClaim : Label Val → Bool
  | .claim _ _ => true
  | _ => false

def Fleet.initial : Fleet Val := ⟨Sys.initial, fun _ => none⟩

def Fleet.put (f : Fleet Val) (worker : String) (c : Scheduler) : Fleet Val :=
  { f with schedulers := Function.update f.schedulers worker (some c) }

def Fleet.label? (f : Fleet Val) : FleetLabel Val → Option (Label Val)
  | .sys l => some l
  | .start _ _ => none
  | .loop worker event =>
    (f.schedulers worker).bind fun c => (c.step f.sys worker event).bind (·.1)

def Fleet.step (d : Deployment Val) (f : Fleet Val) : FleetLabel Val → Option (Fleet Val)
  | .sys l => if l.isClaim then none else (f.sys.step d l).map fun sys => { f with sys := sys }
  -- the identifier of a worker is a fresh uuid
  | .start worker workerConcurrency =>
    if (f.schedulers worker).isNone then
      some (f.put worker ((Scheduler.started workerConcurrency).loop f.sys))
    else none
  | .loop worker event => match f.schedulers worker with
    | none => none
    | some c => match c.step f.sys worker event with
      | none => none
      | some (none, c') => some (f.put worker c')
      | some (some l, c') =>
        (f.sys.step d l).map fun sys => Fleet.put { f with sys := sys } worker c'

variable {d : Deployment Val} {f f' : Fleet Val} {s s' : Sys Val} {worker : String}

theorem Fleet.step_cases {l : FleetLabel Val} (h : f.step d l = some f') :
    (∃ l', l = .sys l' ∧ l'.isClaim = false ∧ f.sys.step d l' = some f'.sys
      ∧ f'.schedulers = f.schedulers)
    ∨ (∃ worker n, l = .start worker n ∧ f.schedulers worker = none
      ∧ f' = f.put worker ((Scheduler.started n).loop f.sys))
    ∨ (∃ worker event c c', l = .loop worker event ∧ f.schedulers worker = some c
      ∧ c.step f.sys worker event = some (none, c') ∧ f' = f.put worker c')
    ∨ (∃ worker event c l' c', l = .loop worker event ∧ f.schedulers worker = some c
      ∧ c.step f.sys worker event = some (some l', c') ∧ f.sys.step d l' = some f'.sys
      ∧ f'.schedulers = (f.put worker c').schedulers) := by
  cases l with
  | sys l' =>
    simp only [Fleet.step] at h
    by_cases hl : l'.isClaim = true
    · rw [if_pos hl] at h
      cases h
    · rw [if_neg hl] at h
      obtain ⟨sys, hsys, rfl⟩ := Option.map_eq_some_iff.mp h
      exact .inl ⟨l', rfl, Bool.eq_false_iff.mpr hl, hsys, rfl⟩
  | start worker n =>
    simp only [Fleet.step] at h
    by_cases hnone : (f.schedulers worker).isNone = true
    · rw [if_pos hnone] at h
      exact .inr (.inl
        ⟨worker, n, rfl, Option.isNone_iff_eq_none.mp hnone, (Option.some.inj h).symm⟩)
    · rw [if_neg hnone] at h
      cases h
  | loop worker event =>
    refine .inr (.inr ?_)
    simp only [Fleet.step] at h
    cases hc : f.schedulers worker with
    | none =>
      rw [hc] at h
      cases h
    | some c =>
      rw [hc] at h
      cases hstep : c.step f.sys worker event with
      | none =>
        simp only [hstep] at h
        cases h
      | some next =>
        obtain ⟨l?, c'⟩ := next
        cases l? with
        | none =>
          simp only [hstep] at h
          exact .inl ⟨worker, event, c, c', rfl, hc, hstep, (Option.some.inj h).symm⟩
        | some l' =>
          simp only [hstep] at h
          obtain ⟨sys, hsys, rfl⟩ := Option.map_eq_some_iff.mp h
          exact .inr ⟨worker, event, c, l', c', rfl, hc, hstep, hsys, rfl⟩

theorem fleet_reachable {ok : Sys Val → Label Val → Prop}
    (hf : Reach (Fleet.step d) (fun f l => ∀ l', f.label? l = some l' → ok f.sys l')
      Fleet.initial f) : Reachable d ok f.sys := by
  induction hf with
  | start => exact .start
  | @step f f' l _ hl hstep ih =>
    rcases Fleet.step_cases hstep with ⟨l', rfl, -, hsys, -⟩ | ⟨worker, n, -, -, rfl⟩
        | ⟨worker, event, c, c', -, -, -, rfl⟩ | ⟨worker, event, c, l', c', rfl, hc, hc', hsys, -⟩
    · exact .step l' ih (hl l' rfl) hsys
    · exact ih
    · exact ih
    · refine .step l' ih (hl l' ?_) hsys
      rw [Fleet.label?, hc, Option.bind_some, hc']
      rfl

/-! ## who works for a worker -/

def Task.worksFor (worker : String) : Task Val → Bool
  | .claiming worker' _ => worker' == worker
  | .run r => r.worker == worker && !r.isEnded
  | _ => false

def Sys.worksFor (s : Sys Val) (worker : String) (t : Nat) : Bool :=
  (s.thread? t).any fun thread => thread.task.worksFor worker

def Sys.workOf (s : Sys Val) (worker : String) : List Nat :=
  (List.range s.threads.length).filter (s.worksFor worker)

theorem Sys.worksFor_iff {t : Nat} : s.worksFor worker t = true ↔
    ∃ task tx, s.threads[t]? = some ⟨task, tx, true⟩ ∧ task.worksFor worker = true := by
  constructor
  · intro h
    obtain ⟨⟨task, tx, alive⟩, hth, htask⟩ := (Option.any_eq_true _ _).mp h
    obtain ⟨hth, rfl⟩ := Sys.thread?_eq_some hth
    exact ⟨task, tx, hth, htask⟩
  · rintro ⟨task, tx, hth, htask⟩
    rw [Sys.worksFor, Sys.thread?, hth]
    exact htask

theorem Sys.mem_workOf {t : Nat} : t ∈ s.workOf worker ↔ s.worksFor worker t = true := by
  refine ⟨fun h => (List.mem_filter.mp h).2, fun h => List.mem_filter.mpr ⟨?_, h⟩⟩
  obtain ⟨task, tx, hth, -⟩ := Sys.worksFor_iff.mp h
  exact List.mem_range.mpr (List.getElem?_eq_some_iff.mp hth).1

theorem Sys.isRunning_of_worksFor {t : Nat} (h : s.worksFor worker t = true)
    (hr : (s.run? t).isSome = true) : s.isRunning t = true := by
  obtain ⟨task, tx, hth, htask⟩ := Sys.worksFor_iff.mp h
  obtain ⟨r, hr⟩ := Option.isSome_iff_exists.mp hr
  obtain ⟨tx', alive, hth'⟩ := Sys.thread_of_run? hr
  rw [hth] at hth'
  obtain ⟨rfl, -⟩ := Thread.mk.inj (Option.some.inj hth')
  have hended := (Bool.and_eq_true_iff.mp htask).2
  exact Sys.isRunning_iff.mpr ⟨r, tx, hth, by simpa using hended⟩

theorem Task.worksFor_of_next {t : Nat} {task : Task Val} {q : Call Val} {k : q.Reply → Task Val}
    (hq : task.next? d t = some ⟨q, k⟩) {reply : q.Reply}
    (h : (k reply).worksFor worker = true) : task.worksFor worker = true := by
  cases task with
  | claiming worker' row =>
    obtain ⟨rfl, hk⟩ := Sigma.mk.inj (Option.some.inj hq)
    obtain rfl := eq_of_heq hk
    exact (Bool.and_eq_true_iff.mp h).1
  | run r =>
    obtain ⟨n, hn, hnk⟩ := Option.map_eq_some_iff.mp hq
    obtain ⟨rfl, hk⟩ := Sigma.mk.inj hnk
    obtain rfl := eq_of_heq hk
    have hworker : ((n.2 reply).worker == worker) = true := (Bool.and_eq_true_iff.mp h).1
    rw [(Run.next?_record hn reply).2] at hworker
    show (r.worker == worker && !r.isEnded) = true
    rw [hworker, Run.isEnded_of_next hn]
    rfl
  | request r c =>
    obtain ⟨n, hn, hnk⟩ := Option.map_eq_some_iff.mp hq
    obtain ⟨rfl, hk⟩ := Sigma.mk.inj hnk
    obtain rfl := eq_of_heq hk
    cases h
  | heartbeat w c =>
    obtain ⟨n, hn, hnk⟩ := Option.map_eq_some_iff.mp hq
    obtain ⟨rfl, hk⟩ := Sigma.mk.inj hnk
    obtain rfl := eq_of_heq hk
    cases h

/-- **Only a claim brings a worker new work.** -/
theorem worksFor_of_step {l : Label Val} (hstep : Step d s l s') {t : Nat}
    (h : s'.worksFor worker t = true) :
    s.worksFor worker t = true ∨ ∃ row, l = .claim worker row ∧ t = s.threads.length := by
  obtain ⟨task', tx', hth', htask'⟩ := Sys.worksFor_iff.mp h
  rcases hstep.task_cases hth' with ⟨⟨task, tx, alive⟩, hth, htask⟩ | ⟨ht, hnew⟩
      | ⟨task, tx, q, k, reply, hth, hq, htask, -⟩ | ⟨r, r', -, hth, hadv, htask⟩
  · obtain rfl : task' = task := htask
    obtain rfl : alive = true := hstep.alive hth hth' rfl
    exact .inl (Sys.worksFor_iff.mpr ⟨task', tx, hth, htask'⟩)
  · cases hnew with
    | claiming worker' row =>
      obtain rfl : worker' = worker := beq_iff_eq.mp htask'
      exact .inr ⟨row, rfl, ht⟩
    | _ => cases htask'
  · obtain rfl : task' = k reply := htask
    exact .inl (Sys.worksFor_iff.mpr ⟨task, tx, hth, Task.worksFor_of_next hq htask'⟩)
  · obtain rfl : task' = .run r' := htask
    refine .inl (Sys.worksFor_iff.mpr ⟨.run r, none, hth, ?_⟩)
    have hworker : (r'.worker == worker) = true := (Bool.and_eq_true_iff.mp htask').1
    rw [(Run.advance_record hadv).2] at hworker
    show (r.worker == worker && !r.isEnded) = true
    rw [hworker, Run.isEnded_of_advance hadv]
    rfl

theorem run?_isSome_of_step {l : Label Val} (hstep : Step d s l s') {t : Nat}
    (h : (s.run? t).isSome = true) : (s'.run? t).isSome = true := by
  obtain ⟨r, hr⟩ := Option.isSome_iff_exists.mp h
  obtain ⟨tx, alive, hth⟩ := Sys.thread_of_run? hr
  obtain ⟨r', tx', alive', hth', -⟩ := Sys.Runs.step hstep ⟨r, tx, alive, hth, rfl, rfl⟩
  rw [Sys.run?_eq hth']
  rfl

theorem not_isRunning_of_step {l : Label Val} (hstep : Step d s l s') {t : Nat}
    (hr : (s.run? t).isSome = true) (h : s.isRunning t = false) : s'.isRunning t = false := by
  obtain ⟨r, hr⟩ := Option.isSome_iff_exists.mp hr
  obtain ⟨tx, alive, hth⟩ := Sys.thread_of_run? hr
  cases h' : s'.isRunning t with
  | false => rfl
  | true => exact (isRunning_of_step hstep ⟨r, tx, alive, hth, rfl, rfl⟩ h').symm.trans h

/-! ## a loop keeps track of its tasks -/

/-- what a turn of the loop relies on -/
structure Scheduler.Tracks (s : Sys Val) (worker : String) (c : Scheduler) : Prop where
  works : ∀ t, s.worksFor worker t = true → t ∈ c.activeTasks
  runs : ∀ t ∈ c.activeTasks, (s.run? t).isSome = true
  bound : c.activeTasks.length ≤ c.workerConcurrency
  room : c.hadWork = false → c.activeTasks.length < c.workerConcurrency

/-- what holds at every `await` -/
structure Scheduler.Ok (s : Sys Val) (worker : String) (c : Scheduler) : Prop where
  works : ∀ t, s.worksFor worker t = true → t ∈ c.activeTasks ∨ c.phase.thread? = some t
  runs : ∀ t ∈ c.activeTasks, (s.run? t).isSome = true
  bound : c.activeTasks.length ≤ c.workerConcurrency
  room : c.hadWork = false → c.activeTasks.length < c.workerConcurrency
  claiming : ∀ thread, c.phase = .claiming thread → c.activeTasks.length < c.workerConcurrency
  idle : ∀ wakeAt, c.phase = .idle wakeAt → c.hadWork = false
  atCapacity : ∀ wakeAt, c.phase = .atCapacity wakeAt → c.hadWork = true
  returned : c.phase = .returned → ∀ t ∈ c.activeTasks, s.isRunning t = false

variable {c c' : Scheduler}

theorem Scheduler.Ok.tracks (h : c.Ok s worker) (hphase : c.phase.thread? = none) :
    c.Tracks s worker where
  works t ht := by
    rcases h.works t ht with hmem | hthread
    · exact hmem
    · rw [hphase] at hthread
      cases hthread
  runs := h.runs
  bound := h.bound
  room := h.room

theorem Scheduler.Tracks.await (h : c.Tracks s worker) (phase : LoopPhase)
    (hclaiming : ∀ thread, phase = .claiming thread → c.activeTasks.length < c.workerConcurrency)
    (hidle : ∀ wakeAt, phase = .idle wakeAt → c.hadWork = false)
    (hatCapacity : ∀ wakeAt, phase = .atCapacity wakeAt → c.hadWork = true)
    (hreturned : phase ≠ .returned) : Scheduler.Ok s worker { c with phase := phase } where
  works t ht := .inl (h.works t ht)
  runs := h.runs
  bound := h.bound
  room := h.room
  claiming := hclaiming
  idle := hidle
  atCapacity := hatCapacity
  returned hp := absurd hp hreturned

theorem Scheduler.Tracks.reap (h : c.Tracks s worker) :
    Scheduler.Tracks s worker
      { c with activeTasks := c.activeTasks.filter fun t => !s.taskDone t } where
  works t ht := by
    refine List.mem_filter.mpr ⟨h.works t ht, ?_⟩
    rw [Sys.taskDone, Sys.isRunning_of_worksFor ht (h.runs t (h.works t ht))]
    rfl
  runs t ht := h.runs t (List.mem_filter.mp ht).1
  bound := (List.length_filter_le _ _).trans h.bound
  room hw := (List.length_filter_le _ _).trans_lt (h.room hw)

theorem Scheduler.Tracks.ok_reapAndClaim (h : c.Tracks s worker) :
    (c.reapAndClaim s).Ok s worker := by
  unfold Scheduler.reapAndClaim
  dsimp only
  by_cases hfull : c.workerConcurrency ≤ (c.activeTasks.filter fun t => !s.taskDone t).length
  · rw [if_pos hfull]
    refine h.reap.await (.atCapacity _) ?_ ?_ (fun _ _ => ?_) ?_
    · rintro thread ⟨⟩
    · rintro wakeAt ⟨⟩
    · show c.hadWork = true
      cases hw : c.hadWork with
      | true => rfl
      | false => exact absurd hfull (Nat.not_le.mpr (h.reap.room hw))
    · rintro ⟨⟩
  · rw [if_neg hfull]
    refine h.reap.await (.claiming none) (fun _ _ => Nat.lt_of_not_le hfull) ?_ ?_ ?_
    · rintro wakeAt ⟨⟩
    · rintro wakeAt ⟨⟩
    · rintro ⟨⟩

/-- **A turn of the loop keeps track of all that works for the worker.** -/
theorem loop_ok (h : c.Tracks s worker) : (c.loop s).Ok s worker := by
  unfold Scheduler.loop
  by_cases hw : c.hadWork = true
  · rw [if_pos hw]
    exact h.ok_reapAndClaim
  · rw [if_neg hw]
    refine h.await (.idle _) ?_ (fun _ _ => Bool.eq_false_iff.mpr hw) ?_ ?_
    · rintro thread ⟨⟩
    · rintro wakeAt ⟨⟩
    · rintro ⟨⟩

theorem Scheduler.Ok.step {l : Label Val} (h : c.Ok s worker) (hstep : Step d s l s')
    (hl : ∀ row, l ≠ .claim worker row) : c.Ok s' worker where
  works t ht := by
    rcases worksFor_of_step hstep ht with hworks | ⟨row, hclaim, -⟩
    · exact h.works t hworks
    · exact absurd hclaim (hl row)
  runs t ht := run?_isSome_of_step hstep (h.runs t ht)
  bound := h.bound
  room := h.room
  claiming := h.claiming
  idle := h.idle
  atCapacity := h.atCapacity
  returned hp t ht := not_isRunning_of_step hstep (h.runs t ht) (h.returned hp t ht)

theorem Scheduler.Ok.drain (h : c.Ok s worker)
    (hgone : ∀ t, c.phase.thread? = some t → s'.worksFor worker t = false)
    (hworks : ∀ t, s'.worksFor worker t = true → s.worksFor worker t = true)
    (hruns : ∀ t, (s.run? t).isSome = true → (s'.run? t).isSome = true) :
    Scheduler.Ok s' worker { c with phase := .draining } where
  works t ht := by
    rcases h.works t (hworks t ht) with hmem | hthread
    · exact .inl hmem
    · rw [hgone t hthread] at ht
      cases ht
  runs t ht := hruns t (h.runs t ht)
  bound := h.bound
  room := h.room
  claiming _ hp := LoopPhase.noConfusion hp
  idle _ hp := LoopPhase.noConfusion hp
  atCapacity _ hp := LoopPhase.noConfusion hp
  returned hp := LoopPhase.noConfusion hp

theorem Sys.not_worksFor_of_thread? {t : Nat} (h : s.thread? t = none) :
    s.worksFor worker t = false := by
  rw [Sys.worksFor, h]
  rfl

/-- what the end of an `await` can be -/
inductive Scheduler.Step (s : Sys Val) (worker : String) (c : Scheduler) :
    Option (Label Val) → Scheduler → Prop where
  | woken {wakeAt : Int} (hp : c.phase = .idle wakeAt) :
      Scheduler.Step s worker c none (c.reapAndClaim s)
  | yielded {wakeAt : Int} (hp : c.phase = .atCapacity wakeAt) :
      Scheduler.Step s worker c none (c.loop s)
  | claim (row : WorkflowRecord) (hp : c.phase = .claiming none) :
      Scheduler.Step s worker c (some (.claim worker row))
        { c with phase := .claiming (some s.threads.length) }
  | claimed {t : Nat} (hp : c.phase = .claiming (some t)) (hrun : (s.run? t).isSome = true) :
      Scheduler.Step s worker c none
        (Scheduler.loop s { c with hadWork := true, activeTasks := t :: c.activeTasks })
  | noClaim (hp : c.phase = .claiming none) :
      Scheduler.Step s worker c none (Scheduler.loop s { c with hadWork := false })
  | cut {t : Nat} (hp : c.phase = .claiming (some t)) :
      Scheduler.Step s worker c (some (.crash t)) { c with phase := .draining }
  | stopped (hgone : ∀ t, c.phase.thread? = some t → s.thread? t = none) :
      Scheduler.Step s worker c none { c with phase := .draining }
  | drained (hp : c.phase = .draining) (hdone : c.activeTasks.all s.taskDone = true) :
      Scheduler.Step s worker c none { c with phase := .returned }

theorem Scheduler.Step.of_step {event : LoopEvent} {l? : Option (Label Val)}
    (h : c.step s worker event = some (l?, c')) : Scheduler.Step s worker c l? c' := by
  cases event with
  | wake =>
    simp only [Scheduler.step] at h
    split at h
    · rename_i wakeAt hp
      split at h
      · obtain ⟨rfl, rfl⟩ := Prod.mk.inj (Option.some.inj h)
        exact .woken hp
      · cases h
    · rename_i wakeAt hp
      split at h
      · obtain ⟨rfl, rfl⟩ := Prod.mk.inj (Option.some.inj h)
        exact .yielded hp
      · cases h
    · cases h
  | claim row =>
    simp only [Scheduler.step] at h
    split at h
    · rename_i hp
      obtain ⟨rfl, rfl⟩ := Prod.mk.inj (Option.some.inj h)
      exact .claim row hp
    · cases h
  | claimed =>
    simp only [Scheduler.step] at h
    split at h
    · rename_i t hp
      split at h
      · rename_i hrun
        obtain ⟨rfl, rfl⟩ := Prod.mk.inj (Option.some.inj h)
        exact .claimed hp hrun
      · cases h
    · cases h
  | noClaim now =>
    simp only [Scheduler.step] at h
    split at h
    · rename_i hp
      split at h
      · obtain ⟨rfl, rfl⟩ := Prod.mk.inj (Option.some.inj h)
        exact .noClaim hp
      · cases h
    · cases h
  | stop =>
    simp only [Scheduler.step] at h
    split at h
    · rename_i t hp
      obtain ⟨rfl, rfl⟩ := Prod.mk.inj (Option.some.inj h)
      cases hth : s.thread? t with
      | none =>
        refine .stopped fun u hu => ?_
        rw [hp] at hu
        obtain rfl : t = u := Option.some.inj hu
        exact hth
      | some th => exact .cut hp
    · cases h
    · cases h
    · rename_i hclaiming _ _
      obtain ⟨rfl, rfl⟩ := Prod.mk.inj (Option.some.inj h)
      refine .stopped fun u hu => ?_
      cases hp : c.phase with
      | claiming thread =>
        rw [hp] at hu
        exact absurd (hp.trans (congrArg LoopPhase.claiming hu)) (hclaiming u)
      | _ =>
        rw [hp] at hu
        cases hu
  | drained =>
    simp only [Scheduler.step] at h
    split at h
    · rename_i hp
      split at h
      · rename_i hdone
        obtain ⟨rfl, rfl⟩ := Prod.mk.inj (Option.some.inj h)
        exact .drained hp hdone
      · cases h
    · cases h

/-- an `await` that no step of the threads goes with -/
theorem Scheduler.Ok.silent (h : c.Ok s worker) (hstep : Scheduler.Step s worker c none c') :
    c'.Ok s worker := by
  cases hstep with
  | woken hp => exact (h.tracks (by rw [hp]; rfl)).ok_reapAndClaim
  | yielded hp => exact loop_ok (h.tracks (by rw [hp]; rfl))
  | @claimed t hp hrun =>
    refine loop_ok ⟨fun u hu => ?_, fun u hu => ?_, h.claiming _ hp, fun hw => ?_⟩
    · rcases h.works u hu with hmem | hthread
      · exact List.mem_cons_of_mem t hmem
      · rw [hp] at hthread
        obtain rfl : t = u := Option.some.inj hthread
        exact List.mem_cons_self
    · rcases List.mem_cons.mp hu with rfl | hmem
      · exact hrun
      · exact h.runs u hmem
    · cases hw
  | noClaim hp =>
    have htracks := h.tracks (by rw [hp]; rfl)
    exact loop_ok ⟨htracks.works, htracks.runs, htracks.bound, fun _ => h.claiming _ hp⟩
  | stopped hgone =>
    exact h.drain (fun t ht => Sys.not_worksFor_of_thread? (hgone t ht)) (fun _ => id) fun _ => id
  | drained hp hdone =>
    have htracks := h.tracks (by rw [hp]; rfl)
    refine ⟨fun t ht => .inl (htracks.works t ht), h.runs, h.bound, h.room, fun _ hp => ?_,
      fun _ hp => ?_, fun _ hp => ?_, fun _ t ht => ?_⟩
    · cases hp
    · cases hp
    · cases hp
    · have hover := List.all_eq_true.mp hdone t ht
      rw [Sys.taskDone] at hover
      simpa using hover

/-- an `await` that ends with a step of the threads: a claim is begun, or cut short -/
theorem Scheduler.Ok.caused {l : Label Val} (h : c.Ok s worker)
    (hstep : Scheduler.Step s worker c (some l) c') (hl : TemporalLight.Step d s l s') :
    c'.Ok s' worker := by
  cases hstep with
  | claim row hp =>
    refine ⟨fun t ht => ?_, fun t ht => run?_isSome_of_step hl (h.runs t ht), h.bound, h.room,
      fun _ _ => h.claiming _ hp, fun _ hp => ?_, fun _ hp => ?_, fun hp => ?_⟩
    · rcases worksFor_of_step hl ht with hworks | ⟨row', -, rfl⟩
      · rcases h.works t hworks with hmem | hthread
        · exact .inl hmem
        · rw [hp] at hthread
          cases hthread
      · exact .inr rfl
    · cases hp
    · cases hp
    · cases hp
  | @cut t hp =>
    refine h.drain (fun u hu => ?_) (fun u hu => ?_) fun u => run?_isSome_of_step hl
    · rw [hp] at hu
      obtain rfl : t = u := Option.some.inj hu
      refine Sys.not_worksFor_of_thread? ?_
      cases hl with
      | crash hth =>
        rw [Sys.thread?, Sys.getElem?_setThread hth, if_pos rfl]
        rfl
    · rcases worksFor_of_step hl hu with hworks | ⟨row, hclaim, -⟩
      · exact hworks
      · cases hclaim

/-! ## all loops -/

/-- every loop keeps track of its tasks, and nobody works for a worker that has not been started -/
structure Fleet.Ok (f : Fleet Val) : Prop where
  loops : ∀ worker c, f.schedulers worker = some c → c.Ok f.sys worker
  others : ∀ worker, f.schedulers worker = none → ∀ t, f.sys.worksFor worker t = false

theorem Fleet.put_self (f : Fleet Val) (worker : String) (c : Scheduler) :
    (f.put worker c).schedulers worker = some c := Function.update_self ..

theorem Fleet.put_ne (f : Fleet Val) {worker worker' : String} (h : worker' ≠ worker)
    (c : Scheduler) : (f.put worker c).schedulers worker' = f.schedulers worker' :=
  Function.update_of_ne h ..

theorem Fleet.Ok.of_put (hput : f'.schedulers = (f.put worker c).schedulers)
    (hself : c.Ok f'.sys worker)
    (hloops : ∀ worker' c', worker' ≠ worker → f.schedulers worker' = some c' →
      c'.Ok f'.sys worker')
    (hothers : ∀ worker', worker' ≠ worker → f.schedulers worker' = none →
      ∀ t, f'.sys.worksFor worker' t = false) : f'.Ok := by
  refine ⟨fun worker' c' hc' => ?_, fun worker' hnone => ?_⟩
  · rw [hput] at hc'
    by_cases hw : worker' = worker
    · subst hw
      rw [Fleet.put_self] at hc'
      obtain rfl := Option.some.inj hc'
      exact hself
    · rw [Fleet.put_ne f hw] at hc'
      exact hloops worker' c' hw hc'
  · rw [hput] at hnone
    by_cases hw : worker' = worker
    · subst hw
      rw [Fleet.put_self] at hnone
      cases hnone
    · rw [Fleet.put_ne f hw] at hnone
      exact hothers worker' hw hnone

theorem Fleet.Ok.others_step (h : f.Ok) {l : Label Val}
    (hl : TemporalLight.Step d f.sys l s') (hne : ∀ row, l ≠ .claim worker row)
    (hnone : f.schedulers worker = none) (t : Nat) : s'.worksFor worker t = false := by
  refine Bool.eq_false_iff.mpr fun ht => ?_
  rcases worksFor_of_step hl ht with hworks | ⟨row, hclaim, -⟩
  · exact absurd hworks (Bool.eq_false_iff.mp (h.others worker hnone t))
  · exact hne row hclaim

theorem Fleet.Ok.step (h : f.Ok) {l : FleetLabel Val} (hstep : f.step d l = some f') : f'.Ok := by
  rcases Fleet.step_cases hstep with ⟨l', -, hclaim, hsys, hsame⟩ | ⟨worker, n, -, hnone, rfl⟩
      | ⟨worker, event, c, c', -, hc, hc', rfl⟩ | ⟨worker, event, c, l', c', -, hc, hc', hsys, hput⟩
  · have hl' := TemporalLight.Step.of_step hsys
    have hne (worker : String) (row : WorkflowRecord) : l' ≠ .claim worker row := by
      rintro rfl
      cases hclaim
    refine ⟨fun worker c hc => ?_, fun worker hnone => ?_⟩
    · rw [hsame] at hc
      exact (h.loops worker c hc).step hl' (hne worker)
    · rw [hsame] at hnone
      exact h.others_step hl' (hne worker) hnone
  · have hidle : (Scheduler.started n).Tracks f.sys worker := by
      refine ⟨fun t ht => ?_, fun t ht => ?_, Nat.zero_le n, fun hw => ?_⟩
      · rw [h.others worker hnone t] at ht
        cases ht
      · cases ht
      · cases hw
    exact .of_put rfl (loop_ok hidle) (fun worker' c' _ hc' => h.loops worker' c' hc')
      fun worker' _ hnone' => h.others worker' hnone'
  · exact .of_put rfl ((h.loops worker c hc).silent (.of_step hc'))
      (fun worker' c' _ hc' => h.loops worker' c' hc')
      fun worker' _ hnone' => h.others worker' hnone'
  · have hl' := TemporalLight.Step.of_step hsys
    have hnext := Scheduler.Step.of_step hc'
    have hne {worker' : String} (hw : worker' ≠ worker) (row : WorkflowRecord) :
        l' ≠ .claim worker' row := by
      rintro rfl
      cases hnext with
      | claim row hp => exact hw rfl
    exact .of_put hput ((h.loops worker c hc).caused hnext hl')
      (fun worker' c' hw hc' => (h.loops worker' c' hc').step hl' (hne hw))
      fun worker' hw hnone' => h.others_step hl' (hne hw) hnone'

theorem fleet_ok {ok : Fleet Val → FleetLabel Val → Prop}
    (hf : Reach (Fleet.step d) ok Fleet.initial f) : f.Ok := by
  refine Reach.invariant (I := Fleet.Ok) ⟨fun _ _ hc => ?_, fun _ _ _ => rfl⟩
    (fun f l f' h _ hstep => h.step hstep) hf
  cases hc

theorem Scheduler.Ok.length_workOf (h : c.Ok s worker) :
    (s.workOf worker).length ≤ c.activeTasks.length + c.phase.thread?.toList.length := by
  rw [← List.length_append]
  have hnodup : (s.workOf worker).Nodup := List.nodup_range.filter _
  refine (List.subperm_of_subset hnodup fun t ht => ?_).length_le
  rcases h.works t (Sys.mem_workOf.mp ht) with hmem | hthread
  · exact List.mem_append_left _ hmem
  · exact List.mem_append_right _ (Option.mem_toList.mpr hthread)

theorem Scheduler.Ok.workOf_of_returned (h : c.Ok s worker) (hp : c.phase = .returned) :
    s.workOf worker = [] := by
  refine List.eq_nil_iff_forall_not_mem.mpr fun t ht => ?_
  have hworks := Sys.mem_workOf.mp ht
  rcases h.works t hworks with hmem | hthread
  · have hrunning := Sys.isRunning_of_worksFor hworks (h.runs t hmem)
    rw [h.returned hp t hmem] at hrunning
    cases hrunning
  · rw [hp] at hthread
    cases hthread

/-- **A worker has at most `worker_concurrency` workflows at hand, sleeps for the idle interval only
if it has fewer, is never idle when it is at capacity, and leaves no workflow running behind.** -/
theorem capacity {ok : Fleet Val → FleetLabel Val → Prop}
    (hf : Reach (Fleet.step d) ok Fleet.initial f) (hc : f.schedulers worker = some c) :
    (f.sys.workOf worker).length ≤ c.workerConcurrency
      ∧ (∀ wakeAt, c.phase = .idle wakeAt →
        (f.sys.workOf worker).length < c.workerConcurrency)
      ∧ (∀ wakeAt, c.phase = .atCapacity wakeAt → c.hadWork = true)
      ∧ (c.phase = .returned → f.sys.workOf worker = []) := by
  have h := (fleet_ok hf).loops worker c hc
  have hlength := h.length_workOf
  refine ⟨?_, fun wakeAt hp => ?_, h.atCapacity, fun hp => ?_⟩
  · cases hp : c.phase with
    | claiming thread =>
      have hroom := h.claiming thread hp
      have hone : (LoopPhase.claiming thread).thread?.toList.length ≤ 1 := by
        cases thread with
        | none => exact Nat.zero_le 1
        | some t => exact Nat.le_refl 1
      rw [hp] at hlength
      omega
    | _ =>
      rw [hp] at hlength
      exact hlength.trans h.bound
  · rw [hp] at hlength
    exact hlength.trans_lt (h.room (h.idle wakeAt hp))
  · exact h.workOf_of_returned hp

/-! ## leases at the end of a loop -/

variable {ok : Sys Val → Label Val → Prop}

/-- no thread crashes that holds a lease -/
def Sys.keepsHolders (s : Sys Val) : Label Val → Bool
  | .crash t => s.workflows.all fun row => s.lease row.workflowId != some t
  | _ => true

theorem Step.stays_alive {l : Label Val} (hstep : TemporalLight.Step d s l s') {t : Nat}
    {task : Task Val} {tx : Option Tx} (hth : s.threads[t]? = some ⟨task, tx, true⟩)
    (hne : l ≠ .crash t) :
    ∃ task' tx', s'.threads[t]? = some ⟨task', tx', true⟩ := by
  have hlt := (List.getElem?_eq_some_iff.mp hth).1
  have hsame (h : s'.threads[t]? = s.threads[t]?) :
      ∃ task' tx', s'.threads[t]? = some ⟨task', tx', true⟩ := ⟨task, tx, h.trans hth⟩
  have hspawn (task : Task Val) : (s.spawn task).threads[t]? = s.threads[t]? := by
    rw [Sys.getElem?_spawn, if_neg (by omega)]
  have hset {u : Nat} {old new : Thread Val} {s₁ : Sys Val} (hold : s.threads[u]? = some old)
      (hs₁ : s₁.threads = s.threads) (hs' : s'.threads = (s₁.setThread u new).threads)
      (hnew : t = u → new.alive = true) :
      ∃ task' tx', s'.threads[t]? = some ⟨task', tx', true⟩ := by
    rw [hs', Sys.getElem?_setThread (hs₁ ▸ hold)]
    by_cases hu : t = u
    · rw [if_pos hu]
      obtain ⟨task', tx', alive'⟩ := new
      obtain rfl : alive' = true := hnew hu
      exact ⟨task', tx', rfl⟩
    · rw [if_neg hu, hs₁]
      exact ⟨task, tx, hth⟩
  cases hstep with
  | tick n => exact hsame rfl
  | claim worker row => exact hsame (hspawn _)
  | request r => exact hsame (hspawn _)
  | heartbeat hth₀ hr => exact hsame (hspawn _)
  | begin hth₀ hq => exact hset hth₀ rfl rfl fun _ => rfl
  | execute hth₀ hrest hx => exact hset hth₀ rfl rfl fun _ => rfl
  | @commit u task x txn k hth₀ hrest hq =>
    exact hset hth₀ (show (s.publish u x).threads = s.threads from rfl) rfl fun _ => rfl
  | read hth₀ hq hreply => exact hset hth₀ (Sys.noteLoad_threads _) rfl fun _ => rfl
  | body result hth₀ hq => exact hset hth₀ rfl rfl fun _ => rfl
  | advance hth₀ hr => exact hset hth₀ rfl rfl fun _ => rfl
  | @crash u task tx hth₀ =>
    exact hset hth₀ rfl rfl fun hu => absurd (congrArg Label.crash hu.symm) hne

/-- whoever holds a lease is alive -/
theorem alive_of_lease (hok : ∀ s l, ok s l → s.keepsHolders l = true) (hs : Reachable d ok s)
    {w : String} {t : Nat} (hlease : s.lease w = some t) :
    ∃ task tx, s.threads[t]? = some ⟨task, tx, true⟩ := by
  refine Reach.invariant_of_reach (I := fun s : Sys Val => ∀ w t, s.lease w = some t →
    ∃ task tx, s.threads[t]? = some ⟨task, tx, true⟩) ?_ ?_ hs w t hlease
  · intro w t hlease
    cases hlease
  · intro s l s' hr ih hl hstep w t hlease
    have hstep := TemporalLight.Step.of_step hstep
    rcases lease_cases hr hstep w with hsame
        | ⟨u, task, x, worker, row, rfl, hth, -, -, -, -, hclaimed⟩
        | ⟨_, _, _, _, -, -, -, -, -, hnone⟩
    · rw [hsame] at hlease
      obtain ⟨task, tx, hth⟩ := ih w t hlease
      refine Step.stays_alive hstep hth ?_
      rintro rfl
      obtain ⟨row, -, -, hrow, -⟩ := (lease_ok hr w).1 t hlease
      have hkeeps := List.all_eq_true.mp (hok _ _ hl) row (Rows.mem_of_lookup hrow)
      rw [Rows.key_of_lookup hrow, hlease] at hkeeps
      simp at hkeeps
    · obtain rfl : u = t := Option.some.inj (hclaimed.symm.trans hlease)
      exact Step.stays_alive hstep hth (by rintro ⟨⟩)
    · rw [hnone] at hlease
      cases hlease

theorem RowUpdate.Settles.unlocked {row : WorkflowRecord} {u : RowUpdate} (h : u.Settles row) :
    row.lockedBy = none := by
  cases u with
  | terminal status => exact h.2.2
  | waiting wait => exact h.2
  | runAt time => exact h.2
  | _ => exact h.elim

/-- a run that has released its lease does not get it back -/
theorem lease_of_released {past : List (Sys Val × Label Val)}
    (htrace : Trace (Sys.step d) ok Sys.initial past s) {t : Nat} {w : String}
    (hreleased : (progress past s t w).released) :
    (∃ worker, s.Runs t worker w) ∧ s.lease w ≠ some t := by
  induction htrace with
  | start =>
    obtain ⟨s₁, r, x, hmem, -⟩ := hreleased
    cases hmem
  | @step past s s' l hpast hl hstep ih =>
    have hs := hpast.reach
    have hstep' := TemporalLight.Step.of_step hstep
    obtain ⟨s₁, r, x, hmem, hth, hw, hrest, hres, hrel⟩ := hreleased
    rcases List.mem_cons.mp hmem with heq | hmem
    · obtain ⟨rfl, rfl⟩ := Prod.mk.inj heq
      refine ⟨⟨r.worker, Sys.Runs.step hstep' ⟨r, some x, true, hth, hw, rfl⟩⟩, fun hlease => ?_⟩
      obtain ⟨u, -, hsettles⟩ := settles_of_commit hs hth hrest hres (hw ▸ hrel)
      obtain ⟨row, hrow⟩ := Option.isSome_iff_exists.mp (row_of_run hs (Sys.run?_eq hth))
      obtain ⟨row', worker, -, hrow', hlocked, -⟩ :=
        (lease_ok (.step _ hs hl hstep) w).1 t hlease
      cases hstep' with
      | @commit _ task x' txn k hth' _ _ =>
        rw [hth] at hth'
        obtain ⟨-, hx, -⟩ := Thread.mk.inj (Option.some.inj hth')
        obtain rfl := Option.some.inj hx
        rw [← hw, Sys.setThread_row?, Sys.row?_publish, hrow] at hrow'
        obtain rfl := Option.some.inj hrow'
        rw [(hsettles row).unlocked] at hlocked
        cases hlocked
    · obtain ⟨⟨worker, hruns⟩, hlease⟩ := ih ⟨s₁, r, x, hmem, hth, hw, hrest, hres, hrel⟩
      refine ⟨⟨worker, hruns.step hstep'⟩, ?_⟩
      rcases lease_cases hs hstep' w with hsame
          | ⟨u, task, x, _, row, -, hth', rfl, -, -, -, hclaimed⟩
          | ⟨_, _, _, _, -, -, -, -, -, hnone⟩
      · rw [hsame]
        exact hlease
      · rw [hclaimed]
        intro hu
        obtain rfl := Option.some.inj hu
        obtain ⟨r', tx', alive', hth'', -⟩ := hruns
        rw [hth'] at hth''
        cases (Thread.mk.inj (Option.some.inj hth'')).1
      · rw [hnone]
        exact Option.some_ne_none t ∘ Eq.symm

theorem released_of_ended (hok : ∀ s l, ok s l →
      s.failsByPayload d l = true ∧ l.textSignal = true ∧ s.endsRecorded d.toRuntime l)
    {past : List (Sys Val × Label Val)} (htrace : Trace (Sys.step d) ok Sys.initial past s)
    {t : Nat} {r : Run Val} (hr : s.run? t = some r) (hended : r.isEnded = true) :
    (progress past s t r.workflowId).released := by
  have hsettling := (settling_ok hok htrace hr).1
  unfold Run.Meets at hsettling
  unfold Run.isEnded at hended
  cases hcode : r.code with
  | ended =>
    rw [hcode] at hsettling
    exact hsettling _ (.refl _)
  | _ =>
    rw [hcode] at hended
    cases hended

/-- **A loop that has returned has left no row locked**, if no thread with a lease has crashed,
under the conditions of `finished_settled`. -/
theorem returned_holds_nothing
    (hf : Reach (Fleet.step d) (fun f l => ∀ l', f.label? l = some l' →
      (f.sys.failsByPayload d l' = true ∧ l'.textSignal = true ∧ f.sys.endsRecorded d.toRuntime l')
        ∧ f.sys.keepsHolders l' = true) Fleet.initial f)
    (hc : f.schedulers worker = some c) (hp : c.phase = .returned) :
    ∀ row ∈ f.sys.workflows, row.lockedBy ≠ some worker := by
  intro row hmem hlocked
  have hs : Reachable d (fun s l => (s.failsByPayload d l = true ∧ l.textSignal = true
    ∧ s.endsRecorded d.toRuntime l) ∧ s.keepsHolders l = true) f.sys := fleet_reachable hf
  have hrow : f.sys.row? row.workflowId = some row := Rows.lookup_of_mem (workflows_ok hs).1 hmem
  obtain ⟨hheld, hfree⟩ := lease_ok hs row.workflowId
  cases hlease : f.sys.lease row.workflowId with
  | none =>
    rw [hfree row hlease hrow] at hlocked
    cases hlocked
  | some t =>
    obtain ⟨row', worker', -, hrow', hlocked', -, r, tx, alive, hth, hw, hworker⟩ := hheld t hlease
    obtain rfl := Option.some.inj (hrow.symm.trans hrow')
    obtain rfl : worker = worker' := Option.some.inj (hlocked.symm.trans hlocked')
    obtain ⟨task, tx', hth'⟩ := alive_of_lease (fun _ _ h => h.2) hs hlease
    rw [hth] at hth'
    obtain ⟨rfl, -, rfl⟩ := Thread.mk.inj (Option.some.inj hth')
    cases hended : r.isEnded with
    | true =>
      obtain ⟨past, htrace⟩ := hs.exists_trace
      have hreleased := released_of_ended (fun _ _ h => h.1) htrace (Sys.run?_eq hth) hended
      exact (lease_of_released htrace hreleased).2 (hw ▸ hlease)
    | false =>
      have hworks : f.sys.worksFor worker t = true := by
        refine Sys.worksFor_iff.mpr ⟨.run r, tx, hth, ?_⟩
        show (r.worker == worker && !r.isEnded) = true
        rw [hworker, hended, beq_self_eq_true]
        rfl
      have hnone := ((fleet_ok hf).loops worker c hc).workOf_of_returned hp
      rw [← Sys.mem_workOf, hnone] at hworks
      cases hworks

end

/-! ## one worker with one slot -/

def takesOne : List (FleetLabel Json) :=
  [.start "A" 1, .sys (.request (.startWorkflow .w "n" (.obj [])))] ++ (transact 0 3).map .sys
    ++ [.loop "A" (.claim (newRow "w" "n" none 0))] ++ (transact 1 2).map .sys
    ++ [.loop "A" .claimed]

def stopsIdle : List (FleetLabel Json) :=
  [.sys (.read 1), .sys (.advance 1)] ++ (transact 1 4).map .sys
    ++ [.sys (.advance 1), .sys (.tick 100000), .loop "A" .wake, .loop "A" (.noClaim 0)]
    ++ [.loop "A" .stop, .loop "A" .drained]

def Fleet.phaseIs (f : Fleet Json) (p : LoopPhase → Bool) : Bool :=
  (f.schedulers "A").any fun c => c.workerConcurrency == 1 && p c.phase

def LoopPhase.isAtCapacity : LoopPhase → Bool
  | .atCapacity _ => true
  | _ => false

def LoopPhase.isReturned : LoopPhase → Bool
  | .returned => true
  | _ => false

theorem capacity_one : ∃ (f : Fleet Json) (c : Scheduler), f.schedulers "A" = some c
    ∧ c.workerConcurrency = 1 ∧ c.phase.isAtCapacity = true ∧ f.sys.worksFor "A" 1 = true
    ∧ (f.sys.workOf "A").length ≤ 1 := by
  have hrun : (follow (Fleet.step returns) (fun _ _ => true) Fleet.initial takesOne).any
      (fun f : Fleet Json => f.phaseIs LoopPhase.isAtCapacity && f.sys.worksFor "A" 1) = true := by
    decide +kernel
  obtain ⟨f, hf, h⟩ := Reach.exists_of_follow _ hrun
  obtain ⟨hphase, hworks⟩ := Bool.and_eq_true_iff.mp h
  obtain ⟨c, hc, hone⟩ := (Option.any_eq_true _ _).mp hphase
  rw [Bool.and_eq_true, beq_iff_eq] at hone
  exact ⟨f, c, hc, hone.1, hone.2, hworks, hone.1 ▸ (capacity hf hc).1⟩

theorem returned_holds_nothing_once : ∃ (f : Fleet Json) (row : WorkflowRecord),
    f.sys.row? "w" = some row ∧ row.status = .completed ∧ row.lockedBy ≠ some "A" := by
  have hrun : (follow (Fleet.step returns) (fun f l => (f.label? l).all fun l' =>
      f.sys.failsByPayload returns l' && l'.textSignal && f.sys.returnsJson l'
        && f.sys.keepsHolders l') Fleet.initial (takesOne ++ stopsIdle)).any
      (fun f : Fleet Json => f.phaseIs LoopPhase.isReturned
        && (f.sys.row? "w").any fun row => row.status == .completed) = true := by
    decide +kernel
  obtain ⟨f, hf, h⟩ := Reach.exists_of_follow _ hrun
  obtain ⟨hphase, hrow⟩ := Bool.and_eq_true_iff.mp h
  obtain ⟨c, hc, hone⟩ := (Option.any_eq_true _ _).mp hphase
  obtain ⟨row, hrow, hstatus⟩ := (Option.any_eq_true _ _).mp hrow
  have hreturned : c.phase = .returned := by
    have hp := (Bool.and_eq_true_iff.mp hone).2
    cases hphase : c.phase with
    | returned => rfl
    | _ =>
      rw [hphase] at hp
      cases hp
  refine ⟨f, row, hrow, beq_iff_eq.mp hstatus,
    returned_holds_nothing (hf.mono fun f l h l' hl' => ?_) hc hreturned row
      (Rows.mem_of_lookup hrow)⟩
  rw [hl'] at h
  simp only [Option.all_some, Bool.and_eq_true] at h
  exact ⟨⟨h.1.1.1, h.1.1.2, Sys.endsRecorded_of_returnsJson h.1.2⟩, h.2⟩

end TemporalLight
