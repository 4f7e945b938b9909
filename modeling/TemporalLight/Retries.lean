import TemporalLight.Blocks
import TemporalLight.Ownership
import TemporalLight.Steps

/-!
# The attempts of an activity

An activity step reads the clock, runs its body, and records how the body has ended.  A failed
attempt is an event of its own; what follows from it, a later `run_at` or the end of the workflow,
is another transaction, and nothing looks at the number of attempts before the body is run again.

* `phased_executeStep`  the order of the calls of one step: after its body there is no second one
* `starts_cases`        a body is started by a call of the run, in its current step
* `attempts_bounded`    no attempt beyond the retries, in a workflow that is claimed within them
* `attempt_exceeds`     a crash between the last FAILED event and the end of the workflow
-/

namespace TemporalLight
open Runs Resumption

section
variable {Val α : Type} {rt : Runtime Val} {ctx : WorkflowContext} {action : Action Val}

/-! ## the calls of a step, in order -/

/-- how far a step has come: the time it has just read, and whether its body has ended -/
structure Phase where
  time : Option Int
  past : Bool

def Call.phase (v : Phase) : (q : Call Val) → q.Reply → Phase
  | .now, time => ⟨some time, v.past⟩
  | .runActivityBody _ _ _ _, _ => ⟨none, true⟩
  | _, _ => ⟨none, v.past⟩

/-- The body comes once, when the clock has just been read.  After it comes the FAILED event, and
the time of the next attempt is counted from another reading of the clock. -/
def Call.InPhase (action : Action Val) (v : Phase) : Call Val → Prop
  | .runActivityBody _ _ _ _ => v.time.isSome = true ∧ v.past = false
  | .transaction (.insertEvent _ _ _ ty _) => ty = .failed → v.past = true
  | .transaction (.updateWorkflowRunAt _ retryAt) => ∀ f args, action = .activity f args →
    v.past = true ∧ ∃ time, v.time = some time ∧ timeAfter time f.backoffSeconds = .ok retryAt
  | _ => True

def phaseRules (action : Action Val) : Rules (Call Val) Call.Reply Phase where
  rely v v' := v' = v
  ask q v := q.InPhase action v
  answer q reply v v' := v' = q.phase v reply
  keep _ _ := True
  rely_refl _ := rfl
  rely_trans h h' := h'.trans h

/-- the calls of the code are in order from the phase `v` on, and its value satisfies `Q` -/
def Phased (action : Action Val) (c : Engine Val α) (Q : α → Phase → Prop) (v : Phase) : Prop :=
  wp (phaseRules action) c.run (fun r v' => match r with
    | .ok a => Q a v'
    | .error _ => True) v

variable {β : Type} {v : Phase} {Q : α → Phase → Prop}

theorem Phased.pure {a : α} (h : Q a v) : Phased action (pure a) Q v := fun _ hv => hv ▸ h

theorem Phased.throw {e : PyExc} : Phased action (throw e : Engine Val α) Q v := fun _ _ => trivial

theorem Phased.value {r : Except PyExc α} (h : ∀ a, r = .ok a → Q a v) :
    Phased action (ExceptT.mk (.pure r)) Q v := by
  rintro _ rfl
  cases r with
  | ok a => exact h a rfl
  | error e => trivial

theorem phased_result (r : Except PyExc α) :
    Phased action (ExceptT.mk (.pure r)) (fun a v' => r = .ok a ∧ v' = v) v :=
  Phased.value fun _ h => ⟨h, rfl⟩

theorem Phased.bind {c : Engine Val α} {f : α → Engine Val β} {Q' : β → Phase → Prop}
    (hc : Phased action c Q v) (hf : ∀ a v', Q a v' → Phased action (f a) Q' v') :
    Phased action (c >>= f) Q' v := by
  refine wp_run_bind (wp_mono (fun r v' hr => ?_) hc)
  cases r with
  | ok a => exact hf a v' hr
  | error e => exact fun _ _ => trivial

theorem Phased.call {q : Call Val} {k : q.Reply → Except PyExc α} (hq : q.InPhase action v)
    (h : ∀ reply a, k reply = .ok a → Q a (q.phase v reply)) :
    Phased action (ExceptT.mk (.call q fun r => .pure (k r))) Q v := by
  rintro _ rfl
  refine ⟨hq, ?_⟩
  rintro reply _ rfl
  exact ⟨trivial, Phased.value fun a ha => h reply a ha⟩

theorem phased_now :
    Phased action (now : Engine Val Int) (fun time v' => v' = ⟨some time, v.past⟩) v :=
  Phased.call (k := .ok) trivial fun time a ha => by cases ha; rfl

theorem phased_load (w : String) :
    Phased action (loadEventHistory w : Engine Val _) (fun _ v' => v' = ⟨none, v.past⟩) v :=
  Phased.call (k := .ok) trivial fun _ _ _ => rfl

theorem phased_body {w : String} {i : Nat} {g : ActivityFunction Val} {args : JsonSafe}
    (htime : v.time.isSome = true) (hv : v.past = false) :
    Phased action (runActivityBody w i g args) (fun _ v' => v' = ⟨none, true⟩) v :=
  Phased.call (k := .ok) ⟨htime, hv⟩ fun _ _ _ => rfl

theorem phased_transaction (txn : Txn) (h : (Call.transaction txn : Call Val).InPhase action v) :
    Phased action (transaction txn : Engine Val Bool) (fun _ v' => v' = ⟨none, v.past⟩) v := by
  show Phased action (ExceptT.mk (.call (.transaction txn) fun r => .pure (id r))) _ v
  exact Phased.call h fun _ _ _ => rfl

theorem phased_writeEvent {w n : String} {i : Int} {ty : EventType} {payload : Except PyExc Json}
    (hty : ty = .failed → v.past = true) :
    Phased action (writeEvent w i n ty payload : Engine Val Unit)
      (fun _ v' => v' = ⟨none, v.past⟩) v := by
  unfold writeEvent
  refine (phased_transaction (.insertEvent w i n ty payload) hty).bind ?_
  rintro _ _ rfl
  exact Phased.call (k := .ok) trivial fun _ _ _ => rfl

/-! ## every step -/

theorem phased_handleActivityFailure {g : ActivityFunction Val} {args : Except PyExc JsonSafe}
    (hv : v.past = true) (i n : Nat) (error : PyExc) (duration : Int) :
    Phased (.activity g args) (handleActivityFailure rt ctx i g n error duration)
      (fun _ _ => True) v := by
  unfold handleActivityFailure
  refine (phased_result _).bind ?_
  rintro errorMessage _ ⟨-, rfl⟩
  refine (phased_writeEvent fun _ => hv).bind ?_
  rintro _ _ rfl
  show Phased _ (if _ then _ else _) _ _
  split
  · refine phased_now.bind ?_
    rintro time _ rfl
    refine (phased_result _).bind ?_
    rintro retryAt _ ⟨hretry, rfl⟩
    refine (phased_transaction (.updateWorkflowRunAt _ _) ?_).bind fun _ _ _ => Phased.pure trivial
    intro g' args' hg
    obtain ⟨rfl, -⟩ := Action.activity.inj hg
    exact ⟨hv, time, rfl, hretry⟩
  · exact (phased_transaction (.failWorkflow _ _ _) trivial).bind fun _ _ _ => Phased.pure trivial

theorem phased_runAttempt {g : ActivityFunction Val} {args : JsonSafe}
    {args' : Except PyExc JsonSafe} (hv : v.past = false) (i : Nat) :
    Phased (.activity g args') (runAttempt rt ctx i g args) (fun _ _ => True) v := by
  unfold runAttempt
  refine phased_now.bind ?_
  rintro startedAt _ rfl
  refine Phased.bind (phased_body rfl hv) ?_
  rintro result _ rfl
  cases result with
  | error executionError =>
    show Phased _ (if _ then _ else _) _ _
    split
    · refine phased_now.bind ?_
      rintro endedAt _ rfl
      exact (phased_handleActivityFailure rfl _ _ _ _).bind fun _ _ _ => Phased.throw
    · exact Phased.throw
  | ok result =>
    refine phased_now.bind ?_
    rintro endedAt _ rfl
    exact (phased_writeEvent fun _ => rfl).bind fun _ _ _ => Phased.pure trivial

theorem phased_executeActivity {g : ActivityFunction Val} {args : Except PyExc JsonSafe}
    (hv : v.past = false) :
    Phased (.activity g args) (executeActivity rt ctx g args) (fun _ _ => True) v := by
  unfold executeActivity
  dsimp only
  split
  · exact Phased.value fun _ _ => trivial
  · refine (phased_result args).bind ?_
    rintro arguments _ ⟨-, rfl⟩
    split
    · refine (phased_result _).bind ?_
      rintro _ _ ⟨-, rfl⟩
      exact phased_runAttempt hv _
    · refine Phased.bind (phased_writeEvent (by simp)) ?_
      rintro _ _ rfl
      refine phased_runAttempt ?_ _
      exact hv

theorem phased_sleep (hnot : ∀ f args, action ≠ .activity f args) (seconds minutes hours days : ℚ) :
    Phased action (sleep rt ctx seconds minutes hours days) (fun _ _ => True) v := by
  have hrun : ∀ (v : Phase) (w : String) (time : Int),
      Phased action (transaction (.updateWorkflowRunAt w time) : Engine Val Bool)
        (fun _ _ => True) v :=
    fun v w time => wp_mono (fun r _ _ => by cases r <;> trivial)
      (phased_transaction (.updateWorkflowRunAt w time) fun f args h => absurd h (hnot f args))
  unfold sleep
  dsimp only
  split
  · refine phased_now.bind fun time _ _ => ?_
    split
    · exact Phased.pure trivial
    · exact (hrun _ _ _).bind fun _ _ _ => Phased.throw
  · refine phased_now.bind fun time _ _ => ?_
    refine (phased_result _).bind fun wakeupAt _ _ => ?_
    refine Phased.bind (phased_writeEvent (by simp)) fun _ _ _ => ?_
    exact (hrun _ _ _).bind fun _ _ _ => Phased.throw

theorem phased_spawnChild (name : String) (kwargs : Except PyExc Json) :
    Phased action (spawnChild rt ctx name kwargs) (fun _ _ => True) v := by
  unfold spawnChild
  dsimp only
  split
  · exact Phased.value fun _ _ => trivial
  · exact (phased_transaction (.createChildWorkflow _ _ _ _ _) trivial).bind
      fun _ _ _ => Phased.pure trivial

theorem phased_waitFor (wait : Wait) : Phased action (waitFor rt ctx wait) (fun _ _ => True) v := by
  have hsuspend : ∀ v : Phase,
      Phased action (suspendUnlessAnswered rt ctx wait) (fun _ _ => True) v := by
    intro v
    unfold suspendUnlessAnswered
    rw [Wait.mark_eq]
    refine (phased_transaction (.markWorkflowWaiting ctx.workflowId wait) trivial).bind
      fun marked _ _ => ?_
    cases marked with
    | true => exact Phased.throw
    | false =>
      refine Phased.bind (phased_load _) fun history _ _ => ?_
      dsimp only
      split
      · exact Phased.value fun _ _ => trivial
      · exact Phased.throw
  unfold waitFor
  dsimp only
  split
  · exact Phased.value fun _ _ => trivial
  · split
    · exact Phased.bind (phased_writeEvent (by simp)) fun _ _ _ => hsuspend _
    · exact hsuspend _

/-- **The calls of a step are in order.** -/
theorem phased_executeStep (rt : Runtime Val) (ctx : WorkflowContext) (action : Action Val) :
    Phased action (executeStep rt ctx action) (fun _ _ => True) ⟨none, false⟩ := by
  cases action with
  | activity f args => exact phased_executeActivity rfl
  | sleep seconds minutes hours days => exact phased_sleep (by simp) _ _ _ _
  | spawnChild name kwargs => exact phased_spawnChild name kwargs
  | waitForChild childId => exact phased_waitFor (.child childId)
  | waitForSignal signalType => exact phased_waitFor (.signal signalType)
  | ret result => exact Phased.pure trivial
  | raise error => exact Phased.throw

end

section
variable {Val : Type} {d : Deployment Val} {s s' : Sys Val} {ok : Sys Val → Label Val → Prop}
  {i : Nat}

/-! ## before and after the body -/

def Call.isBody : Call Val → Bool
  | .runActivityBody _ _ _ _ => true
  | _ => false

/-- the run has the body of step `i` before it -/
def Run.MayStart (i : Nat) (r : Run Val) : Prop :=
  match r.code with
  | .starting _ => True
  | .stepping c => r.delivered.length < i
    ∨ (r.delivered.length = i ∧ ¬ c.run.Asks fun q => q.isBody = false)
  | .ending _ => False
  | .ended => False

theorem phased_of_run (hs : Reachable d ok s) {t : Nat} {r : Run Val} (hr : s.run? t = some r)
    {c : Engine Val Val} (hc : r.code = .stepping c) :
    ∃ v, Phased (r.program r.delivered) c (fun _ _ => True) v := by
  obtain ⟨tx, alive, hth⟩ := Sys.thread_of_run? hr
  have hcode := (task_ok hs hth).code
  unfold Run.CodeOk at hcode
  rw [hc] at hcode
  refine wp_residual ?_ (phased_executeStep d.toRuntime r.stepContext (r.program r.delivered))
    hcode.2.2.2.1
  exact fun q reply v => ⟨q.phase v reply, rfl⟩

theorem Phased.asks_of_past {α : Type} {action : Action Val} {c : Engine Val α}
    {Q : α → Phase → Prop} {v : Phase} (h : Phased action c Q v) (hv : v.past = true) :
    c.run.Asks fun q => q.isBody = false := by
  refine asks_of_wp (I := fun v : Phase => v.past = true) ?_ ?_ h hv
  · intro q v hv hq
    cases q with
    | runActivityBody w i f args => simp [hq.2] at hv
    | _ => rfl
  · intro q reply v hv
    refine ⟨q.phase v reply, rfl, ?_⟩
    cases q <;> first | exact hv | rfl

theorem Run.code_of_next? {r : Run Val} {n : (q : Call Val) × (q.Reply → Run Val)}
    (hn : r.next? = some n) (hstep : r.step? = some i) :
    ∃ c m, r.code = .stepping c ∧ c.run.pending? = some m ∧ n.1 = m.1 := by
  unfold Run.next? at hn
  unfold Run.step? at hstep
  cases hc : r.code with
  | stepping c =>
    rw [hc] at hn
    obtain ⟨m, hm, rfl⟩ := Option.map_eq_some_iff.mp hn
    exact ⟨c, m, rfl, hm, rfl⟩
  | _ =>
    rw [hc] at hstep
    cases hstep

theorem not_mayStart_of_failed (hs : Reachable d ok s) {t : Nat} {r : Run Val}
    (hr : s.run? t = some r) {n : (q : Call Val) × (q.Reply → Run Val)} (hn : r.next? = some n)
    {w name : String} {j : Int} {payload : Except PyExc Json}
    (hq : n.1 = .transaction (.insertEvent w j name .failed payload)) (hstep : r.step? = some i) :
    ¬ r.MayStart i := by
  obtain ⟨c, m, hc, hm, hnm⟩ := Run.code_of_next? hn hstep
  obtain ⟨v, hv⟩ := phased_of_run hs hr hc
  have hlen : r.delivered.length = i := by simpa [Run.step?, hc] using hstep
  have hpast : v.past = true := by
    have hask := hv
    unfold Phased at hask
    rw [pending?_eq_some hm] at hask
    have hask : Call.InPhase (r.program r.delivered) v m.1 := wp_ask hask
    rw [← hnm, hq] at hask
    exact hask rfl
  rw [Run.MayStart, hc]
  rintro (hlt | ⟨-, hasks⟩)
  · omega
  · exact hasks (hv.asks_of_past hpast)

/-- no step puts the body before the run again -/
theorem mayStart_step {l : Label Val} (hstep : Step d s l s') {t : Nat} {r r' : Run Val}
    (hr : s.run? t = some r) (hr' : s'.run? t = some r') (hmay : r'.MayStart i) : r.MayStart i := by
  obtain ⟨tx₀, alive₀, hth₀⟩ := Sys.thread_of_run? hr
  have hsame : ∀ {r₀ : Run Val} {tx : Option Tx}, s.threads[t]? = some ⟨.run r₀, tx, true⟩ →
      r₀ = r := by
    intro r₀ tx hth
    rw [hth₀] at hth
    exact (Task.run.inj (Thread.mk.inj (Option.some.inj hth)).1).symm
  rcases run_cases hstep hr' with hr₀ | ⟨worker, row, tx, reply, hth, -, -⟩
      | ⟨r₀, tx, n, reply, hth, hn, rfl, -⟩ | ⟨r₀, -, hth, hadv⟩
  · rw [hr] at hr₀
    rwa [Option.some.inj hr₀]
  · rw [hth₀] at hth
    cases hth
  · obtain rfl := hsame hth
    unfold Run.next? at hn
    cases hc : r₀.code with
    | starting c => simp [Run.MayStart, hc]
    | stepping c =>
      rw [hc] at hn
      obtain ⟨m, hm, rfl⟩ := Option.map_eq_some_iff.mp hn
      rw [Run.MayStart, hc]
      exact hmay.imp id (And.imp_right fun hasks h => hasks ((h.next hm).2 reply))
    | ending c =>
      rw [hc] at hn
      obtain ⟨m, hm, rfl⟩ := Option.map_eq_some_iff.mp hn
      exact hmay.elim
    | ended =>
      rw [hc] at hn
      cases hn
  · obtain rfl := hsame hth
    rcases Run.advance_cases hadv with ⟨c, program, context, hc, -, -⟩
        | ⟨c, outcome, hc, -, rfl⟩ | ⟨rfl, -⟩
    · simp [Run.MayStart, hc]
    · rw [Run.MayStart, hc]
      refine .inl ?_
      have hlen : r₀.delivered.length + 1 ≤ i := by
        unfold Run.resume at hmay
        dsimp only at hmay
        split at hmay
        · exact hmay.elim
        · rcases hmay with hlt | ⟨hlen, -⟩
          · simpa using hlt.le
          · simpa using hlen.le
      omega
    · exact hmay.elim

/-! ## where a body starts -/

/-- the body that the run of thread `t` is at: the workflow, the step and the activity -/
def Sys.atBody (s : Sys Val) (t : Nat) : Option (String × Nat × ActivityFunction Val) :=
  (s.run? t).bind fun r => match r.next? with
    | some ⟨.runActivityBody w i f _, _⟩ => some (w, i, f)
    | _ => none

/-- between `s` and `s'` the run of thread `t` starts the body `f` of step `i` of `w` -/
def Sys.Starts (s s' : Sys Val) (t : Nat) (w : String) (i : Nat) (f : ActivityFunction Val) :
    Prop :=
  s'.atBody t = some (w, i, f) ∧ s.atBody t ≠ some (w, i, f)

theorem Run.resume_phase {rt : Runtime Val} {r : Run Val}
    {n : (q : Call Val) × (q.Reply → Run Val)} (hn : (r.resume rt).next? = some n) {j : Nat}
    (hstep : (r.resume rt).step? = some j) :
    n.1.InPhase (r.program r.delivered) ⟨none, false⟩ := by
  obtain ⟨c, m, hc, hm, hnm⟩ := Run.code_of_next? hn hstep
  unfold Run.resume at hc
  dsimp only at hc
  split at hc
  · cases hc
  · obtain rfl := Code.stepping.inj hc
    have hask := phased_executeStep rt r.context (r.program r.delivered)
    unfold Phased at hask
    rw [pending?_eq_some hm] at hask
    rw [hnm]
    exact wp_ask hask

theorem Answers.caller? {l : Label Val} {t : Nat} {q : Call Val} {reply : q.Reply}
    (h : Answers s t l q reply s') : l.caller? = some t := by
  cases h <;> rfl

/-- **A body is started by a call of the run, in its current step.** -/
theorem starts_cases (hs' : Reachable d ok s') {l : Label Val} (hstep : Step d s l s') {t : Nat}
    {w : String} {f : ActivityFunction Val} (h : s.Starts s' t w i f) :
    l.caller? = some t ∧ ∃ r, s.run? t = some r ∧ r.workflowId = w ∧ r.step? = some i
      ∧ r.MayStart i := by
  obtain ⟨hat, hnew⟩ := h
  obtain ⟨r', hr', hbody⟩ := Option.bind_eq_some_iff.mp hat
  obtain ⟨args, k, hn⟩ : ∃ args k, r'.next? = some ⟨.runActivityBody w i f args, k⟩ := by
    split at hbody
    · rename_i w' i' f' args k hn
      obtain ⟨rfl, h⟩ := Prod.mk.inj (Option.some.inj hbody)
      obtain ⟨rfl, rfl⟩ := Prod.mk.inj h
      exact ⟨args, k, hn⟩
    · cases hbody
  have hw : w = r'.workflowId := by
    obtain ⟨tx, alive, hth⟩ := Sys.thread_of_run? hr'
    have hok : r'.Ok d.toRuntime (d.workflowRegistry t) s'.loaded := task_ok hs' hth
    exact (hok.next hn).1
  have hin : r'.step? = some i := ((inStep_ok hs' hr').next hn).1
  obtain ⟨c, m, hc, hm, hnm⟩ := Run.code_of_next? hn hin
  have hmay' : r'.MayStart i := by
    rw [Run.MayStart, hc]
    refine .inr ⟨by simpa [Run.step?, hc] using hin, fun hasks => ?_⟩
    have hbody := (hasks.next hm).1
    rw [← hnm] at hbody
    cases hbody
  rcases run_cases hstep hr' with hr | ⟨worker, row, tx, reply, -, -, rfl⟩
      | ⟨r, tx, n, reply, hth, hn₀, rfl, hans⟩ | ⟨r, -, hth, hadv⟩
  · refine absurd ?_ hnew
    rw [Sys.atBody, hr, Option.bind_some, hn]
  · cases hin
  · have hr := Sys.run?_eq hth
    refine ⟨hans.caller?, r, hr, ?_, ?_, mayStart_step hstep hr hr' hmay'⟩
    · rw [hw]
      exact congrArg WorkflowRecord.workflowId (Run.next?_record hn₀ reply).1.symm
    · rw [← hin, Run.next?_step hn₀]
  · have hresume : ∀ r₁ : Run Val, r' = r₁.resume d.toRuntime → False := by
      rintro r₁ rfl
      cases (Run.resume_phase hn hin).1
    rcases Run.advance_cases hadv with ⟨_, _, _, -, -, hr'⟩ | ⟨_, _, -, -, hr'⟩ | ⟨rfl, -⟩
    · exact (hresume _ hr').elim
    · exact (hresume _ hr').elim
    · cases hin

/-! ## the attempts on record -/

/-- the FAILED events of step `i` of `w` -/
def Sys.failures (s : Sys Val) (w : String) (i : Nat) : Nat :=
  (s.history w).countP fun e => e.toEntry.isAt i .failed

/-- a FAILED event is inserted by a run that is in the step -/
theorem Task.Issues.failed_of_entry {L : Loaded} {task : Task Val} {txn : Txn}
    (h : task.Issues L txn) {e : Entry} (he : e ∈ txn.statements.filterMap Stmt.event?)
    (hfailed : e.eventType = .failed) :
    ∃ r name payload, task = .run r ∧ r.workflowId = e.workflowId
      ∧ txn = .insertEvent e.workflowId e.stepIndex name .failed payload := by
  rcases h.cases with ⟨worker, row, -, rfl⟩ | ⟨r, htask, hrun⟩ | ⟨id, name, input, c, -, rfl⟩
      | ⟨w, T, payload, c, -, rfl⟩ | ⟨w, c, -, rfl⟩
  · simp [Txn.statements, Stmt.event?] at he
  · cases txn with
    | insertEvent w j name ty payload =>
      obtain ⟨p, -, rfl⟩ := mem_insertInto he
      obtain rfl : ty = .failed := hfailed
      exact ⟨r, name, payload, htask, hrun.1.symm, rfl⟩
    | completeWorkflow w result parentInfo =>
      obtain ⟨o, -, rfl | ⟨parent, -, rfl⟩⟩ := mem_writeTerminal he <;> cases hfailed
    | failWorkflow w message parentInfo =>
      obtain ⟨o, -, rfl | ⟨parent, -, rfl⟩⟩ := mem_writeTerminal he <;> cases hfailed
    | createChildWorkflow p c name input j =>
      simp only [Txn.statements, List.filterMap_append, List.mem_append] at he
      rcases he with ((he | he) | he) | he
      · simp [Stmt.event?] at he
      · obtain ⟨q, -, rfl⟩ := mem_insertInto he
        cases hfailed
      · obtain ⟨q, -, rfl⟩ := mem_insertInto he
        cases hfailed
      · simp [Stmt.event?] at he
    | markWorkflowWaiting w wait => simp [Txn.statements, Stmt.event?] at he
    | updateWorkflowRunAt w time => simp [Txn.statements, Stmt.event?] at he
    | _ => cases hrun
  · simp only [Txn.statements, List.filterMap_append, List.mem_append] at he
    rcases he with he | he
    · simp [Stmt.event?] at he
    · obtain ⟨p, -, rfl⟩ := mem_insertInto he
      cases hfailed
  · simp only [Txn.statements, List.filterMap_append, List.mem_append] at he
    rcases he with he | he
    · obtain ⟨p, -, rfl⟩ := mem_insertInto he
      cases hfailed
    · simp [Stmt.event?] at he
  · simp [Txn.statements, Stmt.event?] at he

/-- the number of failed attempts changes only when a run in the step records one -/
theorem failures_step (hs : Reachable d ok s) {l : Label Val} (hstep : Step d s l s') (w : String)
    (i : Nat) : s'.failures w i = s.failures w i ∨ ∃ t r x name payload, l = .commit t
      ∧ s.threads[t]? = some ⟨.run r, some x, true⟩ ∧ r.workflowId = w ∧ r.step? = some i
      ∧ x.txn = .insertEvent w i name .failed payload := by
  rcases hstep.tables_cases with htab | ⟨t, task, x, txn, k, rfl, hth, -, -, rfl⟩
  · left
    rw [Sys.failures, Sys.failures, htab.history]
  · have hx := Sys.tx?_eq hth
    by_cases hnone : ∀ e ∈ x.inserted, ¬ (e.workflowId = w ∧ e.toEntry.isAt i .failed = true)
    · left
      rw [Sys.failures, Sys.setThread_history, Sys.countP_publish (ids_ok hs) hx]
      have hzero : (x.inserted.map EventRecord.toEntry).countP
          (fun e => e.workflowId == w && e.isAt i .failed) = 0 := by
        rw [List.countP_eq_zero]
        intro e he
        obtain ⟨e₀, he₀, rfl⟩ := List.mem_map.mp he
        simpa using hnone e₀ he₀
      rw [hzero]
      rfl
    · right
      push Not at hnone
      obtain ⟨e, he, rfl, hat⟩ := hnone
      obtain ⟨hj, hty⟩ := Entry.isAt_iff.mp hat
      obtain ⟨r, name, payload, rfl, hw, htxn⟩ := (issues_of_thread hs hth rfl).failed_of_entry
        ((tx_ok hs hx).mem_entries he) hty
      refine ⟨t, r, x, name, payload, rfl, hth, hw, ?_, by rw [htxn, hj]⟩
      obtain ⟨-, k, hk⟩ := txn_of_thread hs hth rfl
      obtain ⟨n, hn, hq⟩ := Option.map_eq_some_iff.mp hk
      have hin := ((inStep_ok hs (Sys.run?_eq hth)).next hn).1
      have hcall : n.1 = .transaction x.txn := congrArg Sigma.fst hq
      rw [hcall, htxn, hj] at hin
      obtain ⟨j, hr, hij⟩ := hin (by simp)
      rw [hr, Int.ofNat_inj.mp hij]

/-! ## the bound -/

/-- a run that is in step `i` of `w` makes a call only while it holds the lease of `w` -/
def Sys.ownsStep (s : Sys Val) (w : String) (i : Nat) (l : Label Val) : Bool :=
  l.caller?.all fun t => (s.run? t).all fun r =>
    r.workflowId != w || r.step? != some i || s.lease w == some t

/-- `w` is claimed only while at most `m` attempts of step `i` have failed -/
def Sys.claimsWithin (s : Sys Val) (w : String) (i : Nat) (m : Int) (l : Label Val) : Bool :=
  !s.claims w l || decide ((s.failures w i : Int) ≤ m)

theorem Sys.lease_of_ownsStep {w : String} {l : Label Val} (h : s.ownsStep w i l = true) {t : Nat}
    (hl : l.caller? = some t) {r : Run Val} (hr : s.run? t = some r) (hw : r.workflowId = w)
    (hstep : r.step? = some i) : s.lease w = some t := by
  unfold Sys.ownsStep at h
  rw [hl, Option.all_some, hr, Option.all_some, hw, hstep] at h
  simpa using h

section
variable {w : String} {m : Int}

theorem claims_of_lease {l : Label Val} (hstep : Step d s l s') {t : Nat}
    (hnew : s'.lease w = some t) (hold : s.lease w ≠ some t) : s.claims w l = true := by
  rcases hstep.tables_cases with htab | ⟨u, task, x, txn, k, rfl, hth, -, -, rfl⟩
  · rw [htab.lease] at hnew
    exact absurd hnew hold
  · have hnew : leaseAfter u s.lease x.updates w = some t := hnew
    rcases leaseAfter_cases u s.lease x.updates w with h | ⟨-, worker, until_, hmem⟩ | ⟨h, -⟩
    · exact absurd (h.symm.trans hnew) hold
    · exact (Sys.commits_iff (Sys.tx?_eq hth)).mpr ⟨_, hmem, rfl⟩
    · rw [h] at hnew
      cases hnew

/-- under the run that holds the lease, and has the body before it, the failures are within `m` -/
theorem failures_le (hok : ∀ s l, ok s l → s.ownsStep w i l = true ∧ s.claimsWithin w i m l = true)
    (hs : Reachable d ok s) {t : Nat} {r : Run Val} (hr : s.run? t = some r) (hmay : r.MayStart i)
    (hlease : s.lease w = some t) : (s.failures w i : Int) ≤ m := by
  refine Reach.invariant_of_reach (I := fun s : Sys Val => ∀ t r, s.run? t = some r →
    r.MayStart i → s.lease w = some t → (s.failures w i : Int) ≤ m) ?_ ?_ hs t r hr hmay hlease
  · intro t r hr
    rw [Sys.initial_run?] at hr
    cases hr
  · intro s l s' hs ih hl hstep t r' hr' hmay' hlease'
    have hstep := Step.of_step hstep
    obtain ⟨howns, hclaims⟩ := hok s l hl
    by_cases hlease : s.lease w = some t
    · obtain ⟨-, worker, -, -, -, -, r, tx, alive, hth, hw, -⟩ := (lease_ok hs w).1 t hlease
      have hr := Sys.run?_eq hth
      have hmay := mayStart_step hstep hr hr' hmay'
      rcases failures_step hs hstep w i with hsame
          | ⟨u, r₀, x, name, payload, rfl, hth₀, hw₀, hi, htxn⟩
      · rw [hsame]
        exact ih t r hr hmay hlease
      · -- only the holder itself could have recorded a failure, but its body is before it
        have hu := Sys.lease_of_ownsStep howns rfl (Sys.run?_eq hth₀) hw₀ hi
        obtain rfl : t = u := Option.some.inj (hlease.symm.trans hu)
        rw [hth] at hth₀
        obtain ⟨hr₀, rfl, rfl⟩ := Thread.mk.inj (Option.some.inj hth₀)
        obtain rfl := Task.run.inj hr₀
        obtain ⟨-, k, hk⟩ := txn_of_thread hs hth rfl
        obtain ⟨n, hn, hq⟩ := Option.map_eq_some_iff.mp hk
        have hcall : n.1 = .transaction x.txn := congrArg Sigma.fst hq
        rw [htxn] at hcall
        exact absurd hmay (not_mayStart_of_failed hs hr hn hcall hi)
    · have hclaim := claims_of_lease hstep hlease' hlease
      rcases failures_step hs hstep w i with hsame | ⟨u, r₀, x, _, _, rfl, hth, -⟩
      · rw [hsame]
        simpa [Sys.claimsWithin, hclaim] using hclaims
      · -- a claim records nothing
        obtain ⟨v, hv, hlock⟩ := (Sys.commits_iff (Sys.tx?_eq hth)).mp hclaim
        cases v <;> cases hlock
        obtain ⟨row, htask, -⟩ := update_origin hs hth rfl hv
        cases htask

/-- **No attempt beyond the retries.**  While the runs of `w` work on step `i` under their lease,
and `w` is not claimed with the retries of the step exhausted, no body of the step is started when
more attempts have failed than there are retries. -/
theorem attempts_bounded (f : ActivityFunction Val)
    (hs : Reachable d (fun s l => s.ownsStep w i l && s.claimsWithin w i f.maxRetries l) s)
    {l : Label Val} (hl : (s.ownsStep w i l && s.claimsWithin w i f.maxRetries l) = true)
    (hstep : s.step d l = some s') {t : Nat} (hstart : s.Starts s' t w i f) :
    (s.failures w i : Int) ≤ f.maxRetries := by
  have hs' := hs.step l hl hstep
  obtain ⟨hcaller, r, hr, hw, hi, hmay⟩ := starts_cases hs' (Step.of_step hstep) hstart
  obtain ⟨howns, -⟩ := Bool.and_eq_true_iff.mp hl
  exact failures_le (fun s l hl => Bool.and_eq_true_iff.mp hl) hs hr hmay
    (Sys.lease_of_ownsStep howns hcaller hr hw hi)

end

theorem Sys.starts_of_atBody {t : Nat} {w : String} {f : ActivityFunction Val}
    (h : s.atBody t = none) (h' : s'.atBody t = some (w, i, f)) : s.Starts s' t w i f :=
  ⟨h', by simp [h]⟩

end

/-! ## a last attempt, and one more -/

def flaky (maxRetries : Int) : ActivityFunction Json where
  qualname := "flaky"
  maxRetries := maxRetries
  backoffSeconds := 60
  fromJsonSafe := .ok

def tries (maxRetries : Int) : Deployment Json :=
  .plain fun _ => some fun _ delivered =>
    match delivered with
    | [] => .activity (flaky maxRetries) (.ok (.json (.obj [])))
    | [.error error] => .raise error
    | _ => .ret (.ok .null)

def failsOnce : List (Label Json) :=
  [.request (.startWorkflow .w "n" (.obj []))] ++ transact 0 3
    ++ [.claim "A" (newRow "w" "n" none 0)] ++ transact 1 2
    ++ [.read 1, .advance 1] ++ transact 1 2
    ++ [.read 1, .read 1, .body 1 (.error (.other "ValueError" "no")), .read 1]
    ++ transact 1 2 ++ [.read 1]

/-- worker B claims the workflow, and its run, thread `t`, comes to the step -/
def claimsAgain (t : Nat) (row : WorkflowRecord) : List (Label Json) :=
  [.claim "B" row] ++ transact t 2 ++ [.read t, .advance t]

/-- the next step of thread `t` starts the body of the activity, of which `m` retries are allowed -/
def Sys.startsBody (d : Deployment Json) (m : Int) (t : Nat) (s : Sys Json) : Bool :=
  (s.atBody t).isNone && (s.step d (.read t)).any fun s' =>
    (s'.atBody t).any fun b => b.1 == "w" && b.2.1 == 0 && b.2.2.maxRetries == m

theorem Sys.startsBody_spec {d : Deployment Json} {m : Int} {t : Nat} {s : Sys Json}
    (h : s.startsBody d m t = true) :
    ∃ s' f, s.step d (.read t) = some s' ∧ s.Starts s' t "w" 0 f ∧ f.maxRetries = m := by
  unfold Sys.startsBody at h
  simp only [Bool.and_eq_true, Option.isNone_iff_eq_none, Option.any_eq_true, beq_iff_eq] at h
  obtain ⟨hnone, s', hs', ⟨w, i, f⟩, hat, ⟨rfl, rfl⟩, hm⟩ := h
  exact ⟨s', f, hs', Sys.starts_of_atBody hnone hat, hm⟩

/-- after the backoff the second attempt is the last one -/
theorem attempts_bounded_once : ∃ (s s' : Sys Json) (f : ActivityFunction Json),
    s.Starts s' 2 "w" 0 f ∧ s.failures "w" 0 = 1 ∧ (s.failures "w" 0 : Int) ≤ f.maxRetries := by
  let ok (s : Sys Json) (l : Label Json) : Bool := s.ownsStep "w" 0 l && s.claimsWithin "w" 0 1 l
  have hrun : (follow (Sys.step (tries 1)) ok Sys.initial
      (failsOnce ++ [.read 1] ++ transact 1 1 ++ [.advance 1, .tick 60000000]
        ++ claimsAgain 2 (newRow "w" "n" none 60000000))).any (fun s =>
          ok s (.read 2) && s.startsBody (tries 1) 1 2 && s.failures "w" 0 == 1) = true := by
    decide +kernel
  obtain ⟨s, hs, h⟩ := Reach.exists_of_follow _ hrun
  simp only [Bool.and_eq_true, beq_iff_eq] at h
  obtain ⟨⟨hl, hstarts⟩, hfailures⟩ := h
  obtain ⟨s', f, hstep, hstart, hm⟩ := Sys.startsBody_spec hstarts
  have hok : ∀ s l, ok s l = true →
      (s.ownsStep "w" 0 l && s.claimsWithin "w" 0 f.maxRetries l) = true := fun s l h => by
    rw [hm]
    exact h
  exact ⟨s, s', f, hstart, hfailures, attempts_bounded f (hs.mono hok) (hok s _ hl) hstep hstart⟩

/-- A has recorded the one failure that is allowed and crashes; when its lease has lapsed B claims
the workflow, and starts the body again, though no retry is left. -/
theorem attempt_exceeds : ∃ (s s' : Sys Json) (f : ActivityFunction Json),
    Reachable (tries 0) (fun s l => s.ownsStep "w" 0 l) s ∧ s.step (tries 0) (.read 2) = some s'
      ∧ s.Starts s' 2 "w" 0 f ∧ f.maxRetries < s.failures "w" 0 := by
  have hrun : (follow (Sys.step (tries 0)) (fun s l => s.ownsStep "w" 0 l) Sys.initial
      (failsOnce ++ [.crash 1, .tick 31000000] ++ claimsAgain 2
        { newRow "w" "n" none 0 with lockedBy := some "A", lockedUntil := some 30000000 })).any
          (fun s => s.startsBody (tries 0) 0 2 && s.failures "w" 0 == 1) = true := by
    decide +kernel
  obtain ⟨s, hs, h⟩ := Reach.exists_of_follow _ hrun
  rw [Bool.and_eq_true, beq_iff_eq] at h
  obtain ⟨s', f, hstep, hstart, hm⟩ := Sys.startsBody_spec h.1
  exact ⟨s, s', f, hs, hstep, hstart, by rw [hm, h.2]; decide⟩

end TemporalLight
