import TemporalLight.Origins

/-!
# What the payloads of events hold

A property of the calls that holds at every point of the engine's code holds of every call that a
thread of a reachable state waits for (`Puts.transaction`).  Its use here: no payload has a key that
the SSE object of an event takes from the row, but for the name of the step in SCHEDULED events,
which is the one of the row (`keepsColumns`).
-/

namespace TemporalLight
open Runs Resumption

section
variable {Val : Type} {d : Deployment Val} {s s' : Sys Val} {ok : Sys Val → Label Val → Prop}
  {P : Call Val → Prop}

/-! ## calls of all threads -/

/-- all calls of the engine's code satisfy `P` -/
structure Puts (d : Deployment Val) (P : Call Val → Prop) : Prop where
  start : ∀ registry record, (startRun registry record).run.Asks P
  step : ∀ ctx action, (executeStep d.toRuntime ctx action).run.Asks P
  finish : ∀ ctx action, (finishRun d.toRuntime ctx action).run.Asks P
  request : ∀ r, (handleRequest r).run.Asks P
  heartbeat : ∀ w, (extendLock w).run.Asks P
  claim : ∀ worker row, P (.transaction (.claimNextWorkflow worker row))

def Run.Puts (P : Call Val → Prop) (r : Run Val) : Prop :=
  match r.code with
  | .starting c => c.run.Asks P
  | .stepping c => c.run.Asks P
  | .ending c => c.run.Asks P
  | .ended => True

def Task.Puts (P : Call Val → Prop) : Task Val → Prop
  | .claiming _ _ => True
  | .run r => r.Puts P
  | .request _ c => c.run.Asks P
  | .heartbeat _ c => c.run.Asks P

theorem Puts.resume (h : Puts d P) (r : Run Val) : (r.resume d.toRuntime).Puts P := by
  unfold Run.resume
  dsimp only
  split
  · exact h.finish _ _
  · exact h.step _ _

theorem Puts.advance (h : Puts d P) {r r' : Run Val} (hr : r.advance d.toRuntime = some r') :
    r'.Puts P := by
  unfold Run.advance at hr
  cases hc : r.code with
  | starting c =>
    rw [hc] at hr
    obtain ⟨v, -, rfl⟩ := Option.map_eq_some_iff.mp hr
    match v with
    | .ok (some (program, ctx)) => exact h.resume _
    | .ok none => trivial
    | .error e => trivial
  | stepping c =>
    rw [hc] at hr
    obtain ⟨v, -, rfl⟩ := Option.map_eq_some_iff.mp hr
    exact h.resume _
  | ending c =>
    rw [hc] at hr
    obtain ⟨v, -, rfl⟩ := Option.map_eq_some_iff.mp hr
    trivial
  | ended =>
    rw [hc] at hr
    cases hr

theorem Run.Puts.next {r : Run Val} (hr : r.Puts P)
    {n : (q : Call Val) × (q.Reply → Run Val)} (hn : r.next? = some n) :
    P n.1 ∧ ∀ reply, (n.2 reply).Puts P := by
  unfold Run.Puts at hr
  unfold Run.next? at hn
  cases hc : r.code with
  | starting c =>
    rw [hc] at hr hn
    obtain ⟨m, hm, rfl⟩ := Option.map_eq_some_iff.mp hn
    exact Asks.next hr hm
  | stepping c =>
    rw [hc] at hr hn
    obtain ⟨m, hm, rfl⟩ := Option.map_eq_some_iff.mp hn
    exact Asks.next hr hm
  | ending c =>
    rw [hc] at hr hn
    obtain ⟨m, hm, rfl⟩ := Option.map_eq_some_iff.mp hn
    exact Asks.next hr hm
  | ended =>
    rw [hc] at hn
    cases hn

theorem Puts.next (h : Puts d P) {t : Nat} {task : Task Val} (htask : task.Puts P)
    {n : (q : Call Val) × (q.Reply → Task Val)} (hn : task.next? d t = some n) :
    P n.1 ∧ ∀ reply, (n.2 reply).Puts P := by
  cases task with
  | claiming worker row =>
    obtain rfl := Option.some.inj hn
    exact ⟨h.claim worker row, fun _ => h.start _ _⟩
  | run r =>
    obtain ⟨m, hm, rfl⟩ := Option.map_eq_some_iff.mp hn
    exact Run.Puts.next htask hm
  | request r c =>
    obtain ⟨m, hm, rfl⟩ := Option.map_eq_some_iff.mp hn
    exact Asks.next htask hm
  | heartbeat w c =>
    obtain ⟨m, hm, rfl⟩ := Option.map_eq_some_iff.mp hn
    exact Asks.next htask hm

theorem Puts.task (h : Puts d P) (hs : Reachable d ok s) {t : Nat} {th : Thread Val}
    (hth : s.threads[t]? = some th) : th.task.Puts P := by
  refine Reach.invariant (I := fun s : Sys Val => ∀ t th, s.threads[t]? = some th → th.task.Puts P)
    ?_ ?_ hs t th hth
  · intro t th hth
    simp [Sys.initial] at hth
  · intro s l s' ih _ hl t th hth
    rcases (Step.of_step hl).task_cases hth with ⟨th₀, hth₀, htask⟩ | ⟨-, hnew⟩
        | ⟨task, tx, q, k, reply, hth₀, hq, htask, -⟩ | ⟨r, r', -, hth₀, hadv, htask⟩
    · rw [htask]
      exact ih t th₀ hth₀
    · obtain ⟨task, tx, alive⟩ := th
      cases hnew with
      | claiming worker row => trivial
      | request r => exact h.request r
      | heartbeat hth => exact h.heartbeat _
    · rw [htask]
      exact (h.next (ih t _ hth₀) hq).2 reply
    · rw [htask]
      exact h.advance hadv

/-- **What holds of all calls of the code holds of every transaction of a thread.** -/
theorem Puts.transaction (h : Puts d P) (hs : Reachable d ok s) {t : Nat} {x : Tx}
    (hx : s.tx? t = some x) : P (.transaction x.txn) := by
  obtain ⟨task, alive, hth⟩ := Sys.tx?_eq_some hx
  obtain ⟨-, k, hk⟩ := txn_of_thread hs hth rfl
  exact (h.next (h.task hs hth) hk).1

/-! ## payloads -/

/-- the payload has no key of the row's own fields, or the same value there -/
def Entry.KeepsColumns (e : Entry) : Prop :=
  ∃ fields, e.payload = .obj fields ∧ ∀ f ∈ fields, f.1 ∉ ["type", "step_index", "timestamp"]
    ∧ (f.1 = "step_name" → f.2 = .str e.stepName)

def Call.KeepsColumns : Call Val → Prop
  | .transaction txn => ∀ e ∈ txn.statements.filterMap Stmt.event?, e.KeepsColumns
  | _ => True

theorem Entry.keepsColumns_of_keys {w n : String} {i : Int} {ty : EventType}
    {fields : List (String × Json)}
    (h : ∀ f ∈ fields, f.1 ∉ ["type", "step_index", "timestamp", "step_name"]) :
    Entry.KeepsColumns ⟨w, i, n, ty, .obj fields⟩ := by
  refine ⟨fields, rfl, fun f hf => ⟨fun hkey => h f hf ?_, fun hkey => absurd ?_ (h f hf)⟩⟩
  · exact List.mem_append_left ["step_name"] hkey
  · rw [hkey]
    exact List.mem_append_right ["type", "step_index", "timestamp"] List.mem_cons_self

theorem keepsColumns_insertInto {w n : String} {i : Int} {ty : EventType}
    {payload : Except PyExc Json} (h : ∀ p, payload = .ok p → Entry.KeepsColumns ⟨w, i, n, ty, p⟩)
    {e : Entry} (he : e ∈ (insertInto w i n ty payload).filterMap Stmt.event?) :
    e.KeepsColumns := by
  obtain ⟨p, hp, rfl⟩ := mem_insertInto he
  exact h p hp

theorem asks_result {P : Call Val → Prop} {α : Type} (r : Except PyExc α) :
    (ExceptT.mk (.pure r) : Engine Val α).run.Asks P :=
  trivial

theorem asks_transaction (txn : Txn)
    (h : (Call.transaction txn : Call Val).KeepsColumns) :
    (transaction txn : Engine Val Bool).run.Asks Call.KeepsColumns :=
  ⟨h, fun _ => trivial⟩

theorem asks_writeEvent {w n : String} {i : Int} {ty : EventType} {payload : Except PyExc Json}
    (h : ∀ p, payload = .ok p → Entry.KeepsColumns ⟨w, i, n, ty, p⟩) :
    (writeEvent w i n ty payload : Engine Val Unit).run.Asks Call.KeepsColumns :=
  Asks.run_bind (asks_transaction (.insertEvent w i n ty payload)
    fun _ he => keepsColumns_insertInto h he) fun _ => ⟨trivial, fun _ => trivial⟩

theorem keepsColumns_terminal {w : String} {ty : EventType}
    {outcome : Except PyExc (String × Json)} {status : WorkflowStatus}
    {parentInfo : Option ParentInfo} {childStatus : String}
    (h : ∀ o, outcome = .ok o → o.1 = "result" ∨ o.1 = "error") {e : Entry}
    (he : e ∈ (writeTerminalWorkflowEvent w ty outcome status parentInfo childStatus).filterMap
      Stmt.event?) : e.KeepsColumns := by
  obtain ⟨⟨key, value⟩, ho, rfl | ⟨parent, -, rfl⟩⟩ := mem_writeTerminal he
  · refine Entry.keepsColumns_of_keys fun f hf => ?_
    obtain rfl := List.mem_singleton.mp hf
    rcases h _ ho with hkey | hkey <;> rw [hkey] <;> decide
  · exact Entry.keepsColumns_of_keys (by simp)

theorem asks_failWorkflow (w message : String) (parentInfo : Option ParentInfo) :
    (transaction (.failWorkflow w message parentInfo) : Engine Val Bool).run.Asks
      Call.KeepsColumns :=
  asks_transaction _ fun _ he => keepsColumns_terminal (by simp) he

variable {rt : Runtime Val} {ctx : WorkflowContext}

theorem asks_handleActivityFailure (i : Nat) (f : ActivityFunction Val) (n : Nat) (error : PyExc)
    (duration : Int) :
    (handleActivityFailure rt ctx i f n error duration).run.Asks Call.KeepsColumns := by
  have hrunAt : ∀ time,
      (Call.transaction (.updateWorkflowRunAt ctx.workflowId time) : Call Val).KeepsColumns :=
    fun time => by simp [Call.KeepsColumns, Txn.statements, Stmt.event?]
  unfold handleActivityFailure
  refine (asks_result _).run_bind fun errorMessage => ?_
  refine (asks_writeEvent fun p hp => ?_).run_bind fun _ => ?_
  · rw [← Except.ok.inj hp]
    exact Entry.keepsColumns_of_keys (by simp)
  · show Asks _ (ExceptT.run (if _ then _ else _))
    split
    · refine Asks.run_bind ⟨trivial, fun _ => trivial⟩ fun time => ?_
      refine (asks_result _).run_bind fun retryAt => ?_
      exact (asks_transaction _ (hrunAt retryAt)).run_bind fun _ => trivial
    · exact (asks_failWorkflow _ _ _).run_bind fun _ => trivial

theorem asks_runAttempt (i : Nat) (f : ActivityFunction Val) (args : JsonSafe) :
    (runAttempt rt ctx i f args).run.Asks Call.KeepsColumns := by
  unfold runAttempt
  refine Asks.run_bind ⟨trivial, fun _ => trivial⟩ fun startedAt => ?_
  refine Asks.run_bind ⟨trivial, fun _ => trivial⟩ fun result => ?_
  cases result with
  | error executionError =>
    show Asks _ (ExceptT.run (if _ then _ else _))
    split
    · refine Asks.run_bind ⟨trivial, fun _ => trivial⟩ fun endedAt => ?_
      exact (asks_handleActivityFailure i f _ _ _).run_bind fun _ => trivial
    · trivial
  | ok result =>
    refine Asks.run_bind ⟨trivial, fun _ => trivial⟩ fun endedAt => ?_
    refine (asks_writeEvent fun p hp => ?_).run_bind fun _ => trivial
    cases hdumps : rt.dumps result with
    | error e =>
      rw [hdumps] at hp
      cases hp
    | ok j =>
      rw [hdumps] at hp
      rw [← Except.ok.inj hp]
      exact Entry.keepsColumns_of_keys (by simp)

theorem asks_executeActivity (f : ActivityFunction Val) (args : Except PyExc JsonSafe) :
    (executeActivity rt ctx f args).run.Asks Call.KeepsColumns := by
  unfold executeActivity
  dsimp only
  split
  · trivial
  · refine (asks_result args).run_bind fun arguments => ?_
    split
    · exact (asks_result _).run_bind fun _ => asks_runAttempt _ f arguments
    · refine (asks_writeEvent fun p hp => ?_).run_bind fun _ => asks_runAttempt _ f arguments
      cases arguments with
      | refused => cases hp
      | json input =>
        rw [← Except.ok.inj hp]
        exact ⟨_, rfl, by simp⟩

theorem asks_sleep (seconds minutes hours days : ℚ) :
    (sleep rt ctx seconds minutes hours days).run.Asks Call.KeepsColumns := by
  have hrunAt : ∀ time,
      (Call.transaction (.updateWorkflowRunAt ctx.workflowId time) : Call Val).KeepsColumns :=
    fun time => by simp [Call.KeepsColumns, Txn.statements, Stmt.event?]
  unfold sleep
  dsimp only
  split
  · refine Asks.run_bind ⟨trivial, fun _ => trivial⟩ fun time => ?_
    split
    · trivial
    · exact (asks_transaction _ (hrunAt _)).run_bind fun _ => trivial
  · refine Asks.run_bind ⟨trivial, fun _ => trivial⟩ fun time => ?_
    refine (asks_result _).run_bind fun wakeupAt => ?_
    refine (asks_writeEvent fun p hp => ?_).run_bind fun _ => ?_
    · rw [← Except.ok.inj hp]
      exact Entry.keepsColumns_of_keys (by simp)
    · exact (asks_transaction _ (hrunAt _)).run_bind fun _ => trivial

theorem asks_spawnChild (name : String) (kwargs : Except PyExc Json) :
    (spawnChild rt ctx name kwargs).run.Asks Call.KeepsColumns := by
  unfold spawnChild
  dsimp only
  split
  · trivial
  · refine (asks_transaction _ fun e he => ?_).run_bind fun _ => trivial
    simp only [Txn.statements, List.filterMap_append, List.mem_append] at he
    rcases he with ((he | he) | he) | he
    · simp [Stmt.event?] at he
    · refine keepsColumns_insertInto (fun p hp => ?_) he
      cases kwargs with
      | error error => cases hp
      | ok input =>
        rw [← Except.ok.inj hp]
        exact Entry.keepsColumns_of_keys (by simp)
    · refine keepsColumns_insertInto (fun p hp => ?_) he
      cases kwargs with
      | error error => cases hp
      | ok input =>
        rw [← Except.ok.inj hp]
        exact Entry.keepsColumns_of_keys (by simp)
    · simp [Stmt.event?] at he

theorem asks_waitFor (wait : Wait) : (waitFor rt ctx wait).run.Asks Call.KeepsColumns := by
  have hsuspend : (suspendUnlessAnswered rt ctx wait).run.Asks Call.KeepsColumns := by
    unfold suspendUnlessAnswered
    rw [Wait.mark_eq]
    refine (asks_transaction _ (by simp [Call.KeepsColumns, Txn.statements, Stmt.event?])).run_bind
      fun marked => ?_
    cases marked with
    | true => trivial
    | false =>
      refine Asks.run_bind ⟨trivial, fun _ => trivial⟩ fun history => ?_
      dsimp only
      split <;> trivial
  unfold waitFor
  dsimp only
  split
  · trivial
  · split
    · refine (asks_writeEvent fun p hp => ?_).run_bind fun _ => hsuspend
      rw [← Except.ok.inj hp]
      cases wait <;> exact Entry.keepsColumns_of_keys (by simp)
    · exact hsuspend

theorem asks_startRun (registry : String → Option (Json → Program Val)) (record : WorkflowRecord) :
    (startRun registry record).run.Asks Call.KeepsColumns := by
  unfold startRun
  refine Asks.run_bind ⟨trivial, fun _ => trivial⟩ fun history => ?_
  dsimp only
  split
  · exact (asks_failWorkflow _ _ _).run_bind fun _ => trivial
  · split
    · exact (asks_failWorkflow _ _ _).run_bind fun _ => trivial
    · trivial

theorem asks_finishRun (action : Action Val) :
    (finishRun rt ctx action).run.Asks Call.KeepsColumns := by
  unfold finishRun
  split
  · trivial
  · split
    · refine (asks_result _).run_bind fun message => ?_
      exact (asks_failWorkflow _ _ _).run_bind fun _ => trivial
    · trivial
  · rename_i result
    refine (asks_transaction (.completeWorkflow ctx.workflowId result ctx.parentInfo)
      fun e he => keepsColumns_terminal (fun o ho => ?_) he).run_bind fun _ => trivial
    cases result with
    | error error => cases ho
    | ok r =>
      rw [← Except.ok.inj ho]
      exact .inl rfl
  · trivial

theorem asks_handleRequest (r : Request) :
    (handleRequest r : Engine Val Response).run.Asks Call.KeepsColumns := by
  cases r with
  | startWorkflow workflowId name input =>
    refine (asks_transaction _ fun e he => ?_).run_bind fun _ => trivial
    simp only [Txn.statements, List.filterMap_append, List.mem_append] at he
    rcases he with he | he
    · simp [Stmt.event?] at he
    · refine keepsColumns_insertInto (fun p hp => ?_) he
      rw [← Except.ok.inj hp]
      exact Entry.keepsColumns_of_keys (by simp)
  | sendSignal w T payload =>
    refine Asks.run_bind ⟨trivial, fun _ => trivial⟩ fun row => ?_
    cases row with
    | none => trivial
    | some record =>
      show Asks _ (ExceptT.run (if _ then _ else _))
      split
      · trivial
      · refine (asks_transaction _ fun e he => ?_).run_bind fun _ => trivial
        simp only [Txn.statements, List.filterMap_append, List.mem_append] at he
        rcases he with he | he
        · refine keepsColumns_insertInto (fun p hp => ?_) he
          rw [← Except.ok.inj hp]
          exact Entry.keepsColumns_of_keys (by simp)
        · simp [Stmt.event?] at he

theorem puts_keepsColumns : Puts d Call.KeepsColumns where
  start := asks_startRun
  step ctx action := by
    cases action with
    | activity f args => exact asks_executeActivity f args
    | sleep seconds minutes hours days => exact asks_sleep seconds minutes hours days
    | spawnChild name kwargs => exact asks_spawnChild name kwargs
    | waitForChild c => exact asks_waitFor _
    | waitForSignal T => exact asks_waitFor _
    | ret result => trivial
    | raise error => trivial
  finish ctx action := asks_finishRun action
  request := asks_handleRequest
  heartbeat w := (asks_transaction _ (by simp [Call.KeepsColumns, Txn.statements, Stmt.event?])).run_bind
    fun _ => trivial
  claim worker row := by simp [Call.KeepsColumns, Txn.statements, Stmt.event?]

/-- **The payload of a committed event leaves the fields of its row alone.** -/
theorem keepsColumns (hs : Reachable d ok s) {e : EventRecord} (he : e ∈ s.events) :
    e.toEntry.KeepsColumns :=
  committed_of_inserted (fun _ hr _ _ hx _ he =>
    puts_keepsColumns.transaction hr hx _ ((tx_ok hr hx).mem_entries he)) hs he

end

end TemporalLight
