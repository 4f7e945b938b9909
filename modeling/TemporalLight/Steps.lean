import TemporalLight.Leases
import TemporalLight.Payloads

/-!
# What is kept by the code of a run

The code of one run is `startRun`, an `executeStep` for every await of the workflow function, and
`finishRun`.  What is to hold of the code at every point is given by a weakest precondition of what
is left of the current part (`Run.Meets`), and it has to be shown where the function goes on.

* `run_cases`        where the run of a thread comes from
* `run_invariant`    what is kept by each of these steps holds of every run
* `Run.Meets.next`   a call of the run and its reply
* `Run.Meets.advance` the end of one part of the run
* `writes_executeStep` the types of the events that a step may write
* `inStep_ok`        a run executes bodies and writes step events at its current step only
-/

namespace TemporalLight
open Runs Resumption

section
variable {Val : Type} {d : Deployment Val} {s s' : Sys Val} {ok : Sys Val → Label Val → Prop}

/-! ## the steps of a run -/

theorem Run.next?_code {r : Run Val} {n : (q : Call Val) × (q.Reply → Run Val)}
    (hn : r.next? = some n) (reply : n.1.Reply) : ∃ code, n.2 reply = { r with code := code } := by
  unfold Run.next? at hn
  cases hc : r.code with
  | ended =>
    rw [hc] at hn
    cases hn
  | _ =>
    rw [hc] at hn
    obtain ⟨m, -, rfl⟩ := Option.map_eq_some_iff.mp hn
    exact ⟨_, rfl⟩

/-- a silent step: the function goes on with the value of the current part, or the run is over -/
theorem Run.advance_cases {rt : Runtime Val} {r r' : Run Val} (hr : r.advance rt = some r') :
    (∃ c program context, r.code = .starting c ∧ c.run = .pure (.ok (some (program, context)))
      ∧ r' = Run.resume rt { r with program := program, context := context, delivered := [] })
    ∨ (∃ c outcome, r.code = .stepping c ∧ c.run = .pure outcome
      ∧ r' = Run.resume rt { r with delivered := r.delivered ++ [outcome] })
    ∨ (r' = { r with code := .ended }
      ∧ ((∃ c result, r.code = .starting c ∧ c.run = .pure result
          ∧ ∀ p : Program Val × WorkflowContext, result ≠ .ok (some p))
        ∨ ∃ c result, r.code = .ending c ∧ c.run = .pure result)) := by
  unfold Run.advance at hr
  cases hc : r.code with
  | starting c =>
    rw [hc] at hr
    obtain ⟨result, hv, rfl⟩ := Option.map_eq_some_iff.mp hr
    have hval := Resumption.value?_eq_some hv
    match result, hval with
    | .ok (some (program, context)), hval => exact .inl ⟨c, program, context, rfl, hval, rfl⟩
    | .ok none, hval => exact .inr (.inr ⟨rfl, .inl ⟨c, _, rfl, hval, by simp⟩⟩)
    | .error e, hval => exact .inr (.inr ⟨rfl, .inl ⟨c, _, rfl, hval, by simp⟩⟩)
  | stepping c =>
    rw [hc] at hr
    obtain ⟨outcome, hv, rfl⟩ := Option.map_eq_some_iff.mp hr
    exact .inr (.inl ⟨c, outcome, rfl, Resumption.value?_eq_some hv, rfl⟩)
  | ending c =>
    rw [hc] at hr
    obtain ⟨result, hv, rfl⟩ := Option.map_eq_some_iff.mp hr
    exact .inr (.inr ⟨rfl, .inr ⟨c, result, rfl, Resumption.value?_eq_some hv⟩⟩)
  | ended =>
    rw [hc] at hr
    cases hr

/-- where the run of thread `t` comes from: it is the same as before, just claimed, answered, or
silently advanced -/
theorem run_cases {l : Label Val} (h : Step d s l s') {t : Nat} {r' : Run Val}
    (hr : s'.run? t = some r') :
    s.run? t = some r'
    ∨ (∃ worker row tx reply, s.threads[t]? = some ⟨.claiming worker row, tx, true⟩
        ∧ Answers s t l (.transaction (.claimNextWorkflow worker row)) reply s'
        ∧ r' = Run.claimed (d.workflowRegistry t) worker row)
    ∨ (∃ r tx n reply, s.threads[t]? = some ⟨.run r, tx, true⟩ ∧ r.next? = some n
        ∧ r' = n.2 reply ∧ Answers s t l n.1 reply s')
    ∨ (∃ r, l = .advance t ∧ s.threads[t]? = some ⟨.run r, none, true⟩
        ∧ r.advance d.toRuntime = some r') := by
  obtain ⟨tx', alive', hth'⟩ := Sys.thread_of_run? hr
  rcases h.task_cases hth' with ⟨⟨task, tx, alive⟩, hth, htask⟩ | ⟨-, hnew⟩
      | ⟨task, tx, q, k, reply, hth, hq, htask, hans⟩ | ⟨r, r'', hl, hth, hadv, htask⟩
  · obtain rfl : .run r' = task := htask
    exact .inl (Sys.run?_eq hth)
  · cases hnew
  · cases task with
    | claiming worker row =>
      obtain ⟨rfl, hk⟩ := Sigma.mk.inj (Option.some.inj hq)
      obtain rfl := eq_of_heq hk
      exact .inr (.inl ⟨worker, row, tx, reply, hth, hans, Task.run.inj htask⟩)
    | run r =>
      obtain ⟨n, hn, hk⟩ := Option.map_eq_some_iff.mp hq
      obtain ⟨rfl, hk⟩ := Sigma.mk.inj hk
      obtain rfl := eq_of_heq hk
      exact .inr (.inr (.inl ⟨r, tx, n, reply, hth, hn, Task.run.inj htask, hans⟩))
    | request r c =>
      obtain ⟨n, -, hk⟩ := Option.map_eq_some_iff.mp hq
      obtain ⟨rfl, hk⟩ := Sigma.mk.inj hk
      obtain rfl := eq_of_heq hk
      cases htask
    | heartbeat w c =>
      obtain ⟨n, -, hk⟩ := Option.map_eq_some_iff.mp hq
      obtain ⟨rfl, hk⟩ := Sigma.mk.inj hk
      obtain rfl := eq_of_heq hk
      cases htask
  · exact .inr (.inr (.inr ⟨r, hl, hth, Task.run.inj htask ▸ hadv⟩))

/-- **What holds of a run when it is claimed, and is kept by its own steps and by those of all other
threads, holds of every run.** -/
theorem run_invariant {s₀ : Sys Val} {I : List (Sys Val × Label Val) → Sys Val → Nat → Run Val → Prop}
    (hstart : ∀ t r, s₀.run? t = some r → I [] s₀ t r)
    (hclaimed : ∀ past s l s' t worker row tx reply, Trace (Sys.step d) ok s₀ past s → ok s l →
      Step d s l s' → s.threads[t]? = some ⟨.claiming worker row, tx, true⟩ →
      Answers s t l (.transaction (.claimNextWorkflow worker row)) reply s' →
      I ((s, l) :: past) s' t (Run.claimed (d.workflowRegistry t) worker row))
    (hother : ∀ past s l s' t r, Trace (Sys.step d) ok s₀ past s → ok s l → Step d s l s' →
      s.run? t = some r → s'.run? t = some r → I past s t r → I ((s, l) :: past) s' t r)
    (hanswer : ∀ past s l s' t r tx n reply, Trace (Sys.step d) ok s₀ past s → ok s l →
      Step d s l s' → s.threads[t]? = some ⟨.run r, tx, true⟩ → r.next? = some n →
      Answers s t l n.1 reply s' → I past s t r → I ((s, l) :: past) s' t (n.2 reply))
    (hadvance : ∀ past s s' t r r', Trace (Sys.step d) ok s₀ past s → ok s (.advance t) →
      Step d s (.advance t) s' → s.threads[t]? = some ⟨.run r, none, true⟩ →
      r.advance d.toRuntime = some r' → I past s t r → I ((s, .advance t) :: past) s' t r')
    {past : List (Sys Val × Label Val)} (hs : Trace (Sys.step d) ok s₀ past s) {t : Nat} {r : Run Val}
    (hr : s.run? t = some r) : I past s t r := by
  induction hs generalizing t r with
  | start => exact hstart t r hr
  | step l hpast hok hl ih =>
    have hstep := Step.of_step hl
    rcases run_cases hstep hr with hsame | ⟨worker, row, tx, reply, hth, hans, rfl⟩
        | ⟨r₀, tx, n, reply, hth, hn, rfl, hans⟩ | ⟨r₀, rfl, hth, hadv⟩
    · exact hother _ _ _ _ t r hpast hok hstep hsame hr (ih hsame)
    · exact hclaimed _ _ _ _ t worker row tx reply hpast hok hstep hth hans
    · exact hanswer _ _ _ _ t r₀ tx n reply hpast hok hstep hth hn hans (ih (Sys.run?_eq hth))
    · exact hadvance _ _ _ t r₀ r hpast hok hstep hth hadv (ih (Sys.run?_eq hth))

/-! ## the parts of a run -/

variable {σ : Type} {ρ : Rules (Call Val) Call.Reply σ}
  {Start : Except PyExc (Option (Program Val × WorkflowContext)) → σ → Prop}
  {Step' : Outcome Val → σ → Prop} {End : σ → Prop} {v v' : σ}

variable (ρ Start Step' End) in
/-- the code of the run keeps to the rules `ρ`; `startRun` ends in `Start`, an await delivers what
`Step'` allows, and when the run is over `End` holds -/
def Run.Meets (r : Run Val) (v : σ) : Prop :=
  match r.code with
  | .starting c => wp ρ c.run Start v
  | .stepping c => wp ρ c.run Step' v
  | .ending c => wp ρ c.run (fun _ => End) v
  | .ended => ∀ v', ρ.rely v v' → End v'

theorem Run.Meets.rely {r : Run Val} (h : r.Meets ρ Start Step' End v) (hv : ρ.rely v v') :
    r.Meets ρ Start Step' End v' := by
  unfold Run.Meets at h ⊢
  cases hc : r.code with
  | ended =>
    rw [hc] at h
    exact fun v'' hv' => h v'' (ρ.rely_trans hv hv')
  | _ =>
    rw [hc] at h
    exact wp_rely hv h

theorem Run.Meets.next {r : Run Val} (h : r.Meets ρ Start Step' End v)
    {n : (q : Call Val) × (q.Reply → Run Val)} (hn : r.next? = some n) :
    ρ.ask n.1 v ∧ ∀ reply v', ρ.answer n.1 reply v v' → (n.2 reply).Meets ρ Start Step' End v' := by
  unfold Run.Meets at h
  unfold Run.next? at hn
  cases hc : r.code with
  | ended =>
    rw [hc] at hn
    cases hn
  | _ =>
    rw [hc] at h hn
    obtain ⟨m, hm, rfl⟩ := Option.map_eq_some_iff.mp hn
    simp only [Resumption.pending?_eq_some hm] at h
    exact ⟨wp_ask h, fun reply v' hans => (wp_answer h hans).2⟩

theorem Run.Meets.keep {r : Run Val} (h : r.Meets ρ Start Step' End v)
    {n : (q : Call Val) × (q.Reply → Run Val)} (hn : r.next? = some n) {reply : n.1.Reply}
    (hans : ρ.answer n.1 reply v v') : ρ.keep v v' := by
  unfold Run.Meets at h
  unfold Run.next? at hn
  cases hc : r.code with
  | ended =>
    rw [hc] at hn
    cases hn
  | _ =>
    rw [hc] at h hn
    obtain ⟨m, hm, rfl⟩ := Option.map_eq_some_iff.mp hn
    simp only [Resumption.pending?_eq_some hm] at h
    exact (wp_answer h hans).1

/-- the part that the run is in has come to its end: the function goes on, or the run is over -/
theorem Run.Meets.advance {rt : Runtime Val} {r r' : Run Val} (h : r.Meets ρ Start Step' End v)
    (hr : r.advance rt = some r') :
    (∃ c program context, r.code = .starting c ∧ c.run = .pure (.ok (some (program, context)))
      ∧ Start (.ok (some (program, context))) v
      ∧ r' = Run.resume rt { r with program := program, context := context, delivered := [] })
    ∨ (∃ c outcome, r.code = .stepping c ∧ c.run = .pure outcome ∧ Step' outcome v
      ∧ r' = Run.resume rt { r with delivered := r.delivered ++ [outcome] })
    ∨ (r' = { r with code := .ended }
      ∧ ((∃ result, (∀ p, result ≠ .ok (some p)) ∧ Start result v) ∨ End v)) := by
  unfold Run.Meets at h
  rcases Run.advance_cases hr with ⟨c, program, context, hc, hval, hr'⟩ | ⟨c, outcome, hc, hval, hr'⟩
      | ⟨hr', ⟨c, result, hc, hval, hne⟩ | ⟨c, result, hc, hval⟩⟩
  · rw [hc] at h
    simp only [hval] at h
    exact .inl ⟨c, program, context, hc, hval, wp_value h, hr'⟩
  · rw [hc] at h
    simp only [hval] at h
    exact .inr (.inl ⟨c, outcome, hc, hval, wp_value h, hr'⟩)
  · rw [hc] at h
    simp only [hval] at h
    exact .inr (.inr ⟨hr', .inl ⟨result, hne, wp_value h⟩⟩)
  · rw [hc] at h
    simp only [hval] at h
    exact .inr (.inr ⟨hr', .inr (wp_value h)⟩)

theorem Run.workflowId_of_resume {rt : Runtime Val} {registry : String → Option (Json → Program Val)}
    {L : Loaded} {r : Run Val} (h : (r.resume rt).CodeOk rt registry L) :
    r.context.workflowId = r.workflowId := by
  unfold Run.resume at h
  dsimp only at h
  split at h <;> exact h.1.workflowId

/-! ## the calls of one step -/

/-- the call is one of step `i`: the body of the step, or an event at its index; other calls may
come from any part of a run -/
def Call.InStep (i : Option Nat) : Call Val → Prop
  | .runActivityBody _ j _ _ => i = some j
  | .transaction (.insertEvent _ j _ ty _) => ty ≠ .signal → ∃ k : Nat, i = some k ∧ j = k
  | _ => True

def Action.writes : Action Val → List EventType
  | .activity _ _ => [.scheduled, .completed, .failed]
  | .sleep _ _ _ _ => [.sleep]
  | .waitForChild _ => [.signal]
  | .waitForSignal _ => [.signal]
  | _ => []

/-- as `Call.InStep`, and the events are of these types; no step completes the workflow -/
def Call.Writes (i : Option Nat) (types : List EventType) : Call Val → Prop
  | .runActivityBody _ j _ _ => i = some j
  | .transaction (.insertEvent _ j _ ty _) =>
    ty ∈ types ∧ (ty ≠ .signal → ∃ k : Nat, i = some k ∧ j = k)
  | .transaction (.completeWorkflow _ _ _) => i = none
  | _ => True

theorem Call.Writes.inStep {i : Option Nat} {types : List EventType} {q : Call Val}
    (h : q.Writes i types) : q.InStep i := by
  cases q with
  | transaction txn =>
    cases txn with
    | insertEvent w j n ty payload => exact h.2
    | _ => trivial
  | runActivityBody w j f args => exact h
  | _ => trivial

theorem asks_now {P : Call Val → Prop} (h : P .now) : (now : Engine Val Int).run.Asks P :=
  ⟨h, fun _ => trivial⟩

theorem asks_call {P : Call Val → Prop} (txn : Txn) (h : P (.transaction txn)) :
    (transaction txn : Engine Val Bool).run.Asks P :=
  ⟨h, fun _ => trivial⟩

section
variable {rt : Runtime Val} {ctx : WorkflowContext} {i : Option Nat} {types : List EventType}

theorem writes_writeEvent {w n : String} {j : Int} {ty : EventType} {payload : Except PyExc Json}
    (hty : ty ∈ types) (h : ty ≠ .signal → ∃ k : Nat, i = some k ∧ j = k) :
    (writeEvent w j n ty payload : Engine Val Unit).run.Asks (Call.Writes i types) :=
  Asks.run_bind (asks_call (.insertEvent w j n ty payload) ⟨hty, h⟩) fun _ =>
    ⟨trivial, fun _ => trivial⟩

theorem writes_step {w n : String} {j : Nat} {ty : EventType} {payload : Except PyExc Json}
    (hty : ty ∈ types) :
    (writeEvent w j n ty payload : Engine Val Unit).run.Asks (Call.Writes (some j) types) :=
  writes_writeEvent hty fun _ => ⟨j, rfl, rfl⟩

theorem writes_runAttempt (j : Nat) (f : ActivityFunction Val) (args : JsonSafe) :
    (runAttempt rt ctx j f args).run.Asks
      (Call.Writes (some j) [.scheduled, .completed, .failed]) := by
  unfold runAttempt
  refine Asks.run_bind (asks_now trivial) fun startedAt => ?_
  refine Asks.run_bind (show Asks _ (Resumption.call _ _) from ⟨rfl, fun _ => trivial⟩)
    fun result => ?_
  cases result with
  | error executionError =>
    show Asks _ (ExceptT.run (if _ then _ else _))
    split
    · refine Asks.run_bind (asks_now trivial) fun endedAt => ?_
      refine Asks.run_bind ?_ fun _ => trivial
      unfold handleActivityFailure
      refine (asks_result _).run_bind fun errorMessage => ?_
      refine (writes_step (by simp)).run_bind fun _ => ?_
      show Asks _ (ExceptT.run (if _ then _ else _))
      split
      · refine Asks.run_bind (asks_now trivial) fun time => ?_
        refine (asks_result _).run_bind fun retryAt => ?_
        exact (asks_call (.updateWorkflowRunAt _ _) trivial).run_bind fun _ => trivial
      · exact (asks_call (.failWorkflow _ _ _) trivial).run_bind fun _ => trivial
    · trivial
  | ok result =>
    refine Asks.run_bind (asks_now trivial) fun endedAt => ?_
    exact (writes_step (by simp)).run_bind fun _ => trivial

theorem writes_waitFor (wait : Wait) : (waitFor rt ctx wait).run.Asks (Call.Writes i [.signal]) := by
  have hsuspend : (suspendUnlessAnswered rt ctx wait).run.Asks (Call.Writes i [.signal]) := by
    unfold suspendUnlessAnswered
    rw [Wait.mark_eq]
    refine (asks_call (.markWorkflowWaiting ctx.workflowId wait) trivial).run_bind fun marked => ?_
    cases marked with
    | true => trivial
    | false =>
      refine Asks.run_bind ⟨trivial, fun _ => trivial⟩ fun history => ?_
      dsimp only
      split <;> trivial
  unfold waitFor
  dsimp only
  split
  · trivial
  · split
    · exact (writes_writeEvent List.mem_cons_self fun h => absurd rfl h).run_bind fun _ => hsuspend
    · exact hsuspend

/-- **What a step may write: events of its own types, at its own index.** -/
theorem writes_executeStep (action : Action Val) :
    (executeStep rt ctx action).run.Asks (Call.Writes (some ctx.stepCounter) action.writes) := by
  cases action with
  | activity f args =>
    show Asks _ (executeActivity rt ctx f args).run
    unfold executeActivity
    dsimp only
    split
    · trivial
    · refine (asks_result args).run_bind fun arguments => ?_
      split
      · exact (asks_result _).run_bind fun _ => writes_runAttempt _ f arguments
      · exact (writes_step (by simp [Action.writes])).run_bind fun _ =>
          writes_runAttempt _ f arguments
  | sleep seconds minutes hours days =>
    show Asks _ (sleep rt ctx seconds minutes hours days).run
    unfold sleep
    dsimp only
    split
    · refine Asks.run_bind (asks_now trivial) fun time => ?_
      split
      · trivial
      · exact (asks_call (.updateWorkflowRunAt _ _) trivial).run_bind fun _ => trivial
    · refine Asks.run_bind (asks_now trivial) fun time => ?_
      refine (asks_result _).run_bind fun wakeupAt => ?_
      refine (writes_step List.mem_cons_self).run_bind fun _ => ?_
      exact (asks_call (.updateWorkflowRunAt _ _) trivial).run_bind fun _ => trivial
  | spawnChild name kwargs =>
    show Asks _ (spawnChild rt ctx name kwargs).run
    unfold spawnChild
    dsimp only
    split
    · trivial
    · exact (asks_call (.createChildWorkflow _ _ _ _ _) trivial).run_bind fun _ => trivial
  | waitForChild childId => exact writes_waitFor (.child childId)
  | waitForSignal signalType => exact writes_waitFor (.signal signalType)
  | ret result => trivial
  | raise error => trivial

theorem writes_startRun (registry : String → Option (Json → Program Val)) (record : WorkflowRecord) :
    (startRun registry record).run.Asks (Call.Writes none []) := by
  have hfail : ∀ (message : String) (parentInfo : Option ParentInfo),
      (transaction (.failWorkflow record.workflowId message parentInfo) : Engine Val Bool).run.Asks
        (Call.Writes none []) :=
    fun message parentInfo => asks_call (.failWorkflow _ _ _) trivial
  unfold startRun
  refine Asks.run_bind ⟨trivial, fun _ => trivial⟩ fun history => ?_
  dsimp only
  split
  · exact (hfail _ _).run_bind fun _ => trivial
  · split
    · exact (hfail _ _).run_bind fun _ => trivial
    · trivial

theorem writes_finishRun (action : Action Val) :
    (finishRun rt ctx action).run.Asks (Call.Writes none []) := by
  unfold finishRun
  split
  · trivial
  · split
    · refine (asks_result _).run_bind fun message => ?_
      exact (asks_call (.failWorkflow _ _ _) trivial).run_bind fun _ => trivial
    · trivial
  · refine Asks.run_bind ?_ fun _ => trivial
    exact asks_call (P := Call.Writes none []) (.completeWorkflow _ _ _) rfl
  · trivial

end

def Run.step? (r : Run Val) : Option Nat :=
  match r.code with
  | .stepping _ => some r.delivered.length
  | _ => none

theorem Run.next?_step {r : Run Val} {n : (q : Call Val) × (q.Reply → Run Val)}
    (hn : r.next? = some n) (reply : n.1.Reply) : (n.2 reply).step? = r.step? := by
  unfold Run.next? at hn
  cases hc : r.code with
  | ended =>
    rw [hc] at hn
    cases hn
  | _ =>
    rw [hc] at hn
    obtain ⟨m, -, rfl⟩ := Option.map_eq_some_iff.mp hn
    rw [Run.step?, Run.step?, hc]

/-- the calls of a run are calls of its current step -/
theorem inStep_ok (hs : Reachable d ok s) {t : Nat} {r : Run Val} (hr : s.run? t = some r) :
    r.Puts (Call.InStep r.step?) := by
  obtain ⟨past, htrace⟩ := hs.exists_trace
  refine run_invariant (I := fun _ _ _ r => r.Puts (Call.InStep r.step?)) ?_ ?_ ?_ ?_ ?_ htrace hr
  · intro t r hr
    rw [Sys.initial_run?] at hr
    cases hr
  · intro _ _ _ _ _ worker row _ _ _ _ _ _ _
    exact (writes_startRun _ _).mono fun _ => Call.Writes.inStep
  · intro _ _ _ _ _ _ _ _ _ _ _ h
    exact h
  · intro _ _ _ _ _ r _ n reply _ _ _ _ hn _ h
    rw [Run.next?_step hn]
    exact (h.next hn).2 reply
  · intro past s s' t r r' htrace _ _ hth hadv _
    have hcode := ((task_ok htrace.reach hth).advance hadv).code
    have hresume : ∀ r₁ : Run Val, r' = r₁.resume d.toRuntime →
        r'.Puts (Call.InStep r'.step?) := by
      rintro r₁ rfl
      unfold Run.resume at hcode ⊢
      dsimp only at hcode ⊢
      split
      · exact (writes_finishRun _).mono fun _ => Call.Writes.inStep
      · rename_i hend
        rw [if_neg hend] at hcode
        have hcount : r₁.context.stepCounter + 1 = r₁.delivered.length + 1 := hcode.2.1
        show Asks (Call.InStep (some r₁.delivered.length)) _
        rw [← Nat.succ.inj hcount]
        exact (writes_executeStep _).mono fun _ => Call.Writes.inStep
    rcases Run.advance_cases hadv with ⟨_, _, _, -, -, hr'⟩ | ⟨_, _, -, -, hr'⟩ | ⟨rfl, -⟩
    · exact hresume _ hr'
    · exact hresume _ hr'
    · trivial

end

end TemporalLight
