import TemporalLight.Tasks

/-!
# Who writes what

Every committed event and every update of a row comes from a transaction of a thread, so its form
says which thread that was.

* `entry_ok`       the form of an event follows from its type (`Entry.Ok`);
* `parent_of_run`  the parent that a run reports its end to is the one that spawned it;
* `update_origin`  an update of a row tells the task of its thread.
-/

namespace TemporalLight
open Runs Resumption

section
variable {Val : Type} {d : Deployment Val} {s s' : Sys Val} {ok : Sys Val → Label Val → Prop}

/-! ## the form of an event -/

/-- what the type of an event says about the rest of it -/
def Entry.Ok (e : Entry) : Prop :=
  match e.eventType with
  | .started => e.stepIndex = -1 ∧ ((parentInfoOf e.payload = none ∧ ':' ∉ e.workflowId.toList)
      ∨ ∃ parentId i, e.workflowId = childWorkflowId parentId i
        ∧ parentInfoOf e.payload = some ⟨parentId, e.workflowId⟩)
  | .scheduled => ∃ i : Nat, e.stepIndex = i
  | .completed => ∃ i : Nat, e.stepIndex = i
  | .failed => ∃ i : Nat, e.stepIndex = i
  | .sleep => ∃ i : Nat, e.stepIndex = i
  | .childStarted => ∃ i : Nat, e.stepIndex = i
      ∧ e.payload.get? "child_id" = some (.str (childWorkflowId e.workflowId i))
  | .signal => e.stepIndex = -1 ∧ ((∃ wait : Wait, e.payload = wait.markerPayload)
      ∨ ∃ signalType payload, e.payload
        = .obj [("signal_type", .str signalType), ("payload", payload)])
  | .workflowCompleted => e.stepIndex = -1 ∧ ∃ result, e.payload = .obj [("result", result)]
  | .workflowFailed => e.stepIndex = -1 ∧ ∃ message, e.payload = .obj [("error", .str message)]

theorem mem_insertInto {w : String} {i : Int} {n : String} {ty : EventType}
    {payload : Except PyExc Json} {e : Entry}
    (he : e ∈ (insertInto w i n ty payload).filterMap Stmt.event?) :
    ∃ p, payload = .ok p ∧ e = ⟨w, i, n, ty, p⟩ := by
  cases payload with
  | error error => simp [insertInto, Stmt.event?] at he
  | ok p => exact ⟨p, rfl, by simpa [insertInto, Stmt.event?] using he⟩

theorem writeTerminal_entries (w : String) (ty : EventType) (o : String × Json)
    (status : WorkflowStatus) (parentInfo : Option ParentInfo) (childStatus : String) :
    (writeTerminalWorkflowEvent w ty (.ok o) status parentInfo childStatus).filterMap Stmt.event?
      = ⟨w, -1, "workflow", ty, .obj [o]⟩ :: parentInfo.toList.map fun parent =>
        ⟨parent.workflowId, -1, "signal", .signal, childSignalPayload parent childStatus o⟩ := by
  cases parentInfo <;> rfl

theorem writeTerminal_changes (w : String) (ty : EventType) (outcome : Except PyExc (String × Json))
    (status : WorkflowStatus) (parentInfo : Option ParentInfo) (childStatus : String) :
    (writeTerminalWorkflowEvent w ty outcome status parentInfo childStatus).filterMap Stmt.change?
      = (w, .terminal status) :: parentInfo.toList.map fun parent => (parent.workflowId, .wake) := by
  cases parentInfo <;> rfl

theorem mem_writeTerminal {w : String} {ty : EventType} {outcome : Except PyExc (String × Json)}
    {status : WorkflowStatus} {parentInfo : Option ParentInfo} {childStatus : String} {e : Entry}
    (he : e ∈ (writeTerminalWorkflowEvent w ty outcome status parentInfo childStatus).filterMap
      Stmt.event?) :
    ∃ o, outcome = .ok o ∧ (e = ⟨w, -1, "workflow", ty, .obj [o]⟩ ∨ ∃ parent,
      parentInfo = some parent
        ∧ e = ⟨parent.workflowId, -1, "signal", .signal, childSignalPayload parent childStatus o⟩) := by
  cases outcome with
  | error error =>
    cases parentInfo <;> simp [writeTerminalWorkflowEvent, insertInto, Stmt.event?, Except.map] at he
  | ok o =>
    rw [writeTerminal_entries] at he
    refine ⟨o, rfl, (List.mem_cons.mp he).imp id fun he => ?_⟩
    obtain ⟨parent, hparent, rfl⟩ := List.mem_map.mp he
    exact ⟨parent, Option.mem_toList.mp hparent, rfl⟩

theorem Txn.OfRun.entry_ok {L : Loaded} {w : String} {wait? : Option Wait} {txn : Txn}
    (h : txn.OfRun w wait? L) {e : Entry}
    (he : e ∈ txn.statements.filterMap Stmt.event?) : e.Ok := by
  cases txn with
  | createChildWorkflow p c name input i =>
    obtain ⟨rfl, rfl⟩ := h
    simp only [Txn.statements, List.filterMap_append, List.mem_append] at he
    rcases he with ((he | he) | he) | he
    · simp [Stmt.event?] at he
    · obtain ⟨q, hq, rfl⟩ := mem_insertInto he
      cases input with
      | error error => cases hq
      | ok input =>
        obtain rfl := Except.ok.inj hq
        exact ⟨rfl, .inr ⟨p, i, rfl, rfl⟩⟩
    · obtain ⟨q, hq, rfl⟩ := mem_insertInto he
      cases input with
      | error error => cases hq
      | ok input =>
        obtain rfl := Except.ok.inj hq
        exact ⟨i, rfl, rfl⟩
    · simp [Stmt.event?] at he
  | completeWorkflow w' result parentInfo =>
    obtain ⟨o, ho, he | ⟨parent, -, he⟩⟩ := mem_writeTerminal he
    · cases result with
      | error error => cases ho
      | ok r =>
        obtain rfl := Except.ok.inj ho
        exact he ▸ ⟨rfl, r, rfl⟩
    · exact he ▸ ⟨rfl, .inr ⟨_, _, rfl⟩⟩
  | failWorkflow w' message parentInfo =>
    obtain ⟨o, ho, he | ⟨parent, -, he⟩⟩ := mem_writeTerminal he
    · obtain rfl := Except.ok.inj ho
      exact he ▸ ⟨rfl, message, rfl⟩
    · exact he ▸ ⟨rfl, .inr ⟨_, _, rfl⟩⟩
  | insertEvent w' i n ty payload =>
    obtain ⟨p, hp, rfl⟩ := mem_insertInto he
    rcases h.2 with ⟨hi, rfl | rfl | rfl | rfl⟩ | ⟨hi, rfl, wait, hw⟩
    · exact hi
    · exact hi
    · exact hi
    · exact hi
    · rw [hp] at hw
      exact ⟨hi, .inl ⟨wait, Except.ok.inj hw⟩⟩
  | markWorkflowWaiting w' wait => simp [Txn.statements, Stmt.event?] at he
  | updateWorkflowRunAt w' time => simp [Txn.statements, Stmt.event?] at he
  | _ => cases h

theorem Task.Issues.entry_ok {L : Loaded} {task : Task Val} {txn : Txn}
    (h : task.Issues L txn) {e : Entry} (he : e ∈ txn.statements.filterMap Stmt.event?) : e.Ok := by
  rcases h.cases with ⟨worker, row, -, rfl⟩ | ⟨r, -, hrun⟩ | ⟨id, name, input, c, -, rfl⟩
      | ⟨w, T, payload, c, -, rfl⟩ | ⟨w, c, -, rfl⟩
  · simp [Txn.statements, Stmt.event?] at he
  · exact hrun.entry_ok he
  · simp only [Txn.statements, List.filterMap_append, List.mem_append] at he
    rcases he with he | he
    · simp [Stmt.event?] at he
    · obtain ⟨p, hp, rfl⟩ := mem_insertInto he
      obtain rfl := Except.ok.inj hp
      exact ⟨rfl, .inl ⟨rfl, id.no_colon⟩⟩
  · simp only [Txn.statements, List.filterMap_append, List.mem_append] at he
    rcases he with he | he
    · obtain ⟨p, hp, rfl⟩ := mem_insertInto he
      obtain rfl := Except.ok.inj hp
      exact ⟨rfl, .inr ⟨T, payload, rfl⟩⟩
    · simp [Stmt.event?] at he
  · simp [Txn.statements, Stmt.event?] at he

theorem entry_ok_of_inserted (hs : Reachable d ok s) {t : Nat} {x : Tx} (hx : s.tx? t = some x)
    {e : EventRecord} (he : e ∈ x.inserted) : e.toEntry.Ok := by
  obtain ⟨task, alive, hth⟩ := Sys.tx?_eq_some hx
  exact (issues_of_thread hs hth rfl).entry_ok ((tx_ok hs hx).mem_entries he)

theorem committed_of_inserted {P : EventRecord → Prop}
    (h : ∀ s : Sys Val, Reachable d ok s → ∀ t x, s.tx? t = some x → ∀ e ∈ x.inserted, P e)
    (hs : Reachable d ok s) {e : EventRecord} (he : e ∈ s.events) : P e := by
  refine Reach.invariant_of_reach (I := fun s : Sys Val => ∀ e ∈ s.events, P e)
    (by simp [Sys.initial]) ?_ hs e he
  intro s l s' hr ih _ hl e he
  rcases (Step.of_step hl).tables_cases with htab | ⟨t, task, x, txn, k, -, hth, -, -, rfl⟩
  · exact ih e (htab.events ▸ he)
  · rcases (mem_events_publish (t := t)).mp he with he | he
    · exact ih e he
    · exact h s hr t x (Sys.tx?_eq hth) e he

/-- **The form of a committed event follows from its type.** -/
theorem entry_ok (hs : Reachable d ok s) {e : EventRecord} (he : e ∈ s.events) : e.toEntry.Ok :=
  committed_of_inserted (fun _ hr _ _ hx _ he => entry_ok_of_inserted hr hx he) hs he

/-! ## histories -/

theorem mem_events_of_loaded (hs : Reachable d ok s) {w : String} {h : List EventRecord}
    (hl : (w, h) ∈ s.loaded) {e : EventRecord} (he : e ∈ h) : e ∈ s.history w := by
  refine Reach.invariant (I := fun s : Sys Val => ∀ w h, (w, h) ∈ s.loaded → ∀ e ∈ h,
    e ∈ s.history w) (by simp [Sys.initial]) ?_ hs w h hl e he
  intro s l s' ih _ hl w h hmem e he
  have hstep := Step.of_step hl
  have hold : (w, h) ∈ s.loaded → e ∈ s'.history w := fun hm => hstep.mem_history (ih w h hm e he)
  cases hstep with
  | @read t task q k reply hth hq hreply =>
    replace hmem : (w, h) ∈ (s.noteLoad q).loaded := hmem
    cases q with
    | loadEventHistory w' =>
      rcases List.mem_cons.mp hmem with heq | hmem
      · obtain ⟨rfl, rfl⟩ := Prod.mk.inj heq
        exact he
      · exact hold hmem
    | _ => exact hold hmem
  | _ => exact hold hmem

/-- **The parent of a run spawned it**, so its id is the parent's id with a step index. -/
theorem parent_of_run (hs : Reachable d ok s) {w : String} {parentInfo : Option ParentInfo}
    (h : ParentOk w s.loaded parentInfo) {parent : ParentInfo} (hp : parentInfo = some parent) :
    parent.childId = w ∧ ∃ i, w = childWorkflowId parent.workflowId i := by
  obtain ⟨history, hmem, hof⟩ := h
  obtain ⟨e, hfind, hparent⟩ := Option.bind_eq_some_iff.mp (hof.symm.trans hp)
  have hty : e.eventType = .started := by simpa using List.find?_some hfind
  obtain ⟨hev, hw⟩ := Sys.mem_history.mp
    (mem_events_of_loaded hs hmem (List.mem_of_find?_eq_some hfind))
  have hentry := entry_ok hs hev
  unfold Entry.Ok at hentry
  rw [hty] at hentry
  rcases hentry.2 with ⟨hnone, -⟩ | ⟨parentId, i, hid, hsome⟩
  · rw [hparent] at hnone
    cases hnone
  · rw [hparent] at hsome
    obtain rfl := Option.some.inj hsome
    exact ⟨hw, i, hw ▸ hid⟩

theorem childWorkflowId_ne (p : String) (i : Nat) : childWorkflowId p i ≠ p := by
  intro h
  have := congrArg String.length h
  simp only [childWorkflowId, String.length_append] at this
  have hcolon : (":" : String).length = 1 := rfl
  omega

theorem parent_ne (hs : Reachable d ok s) {w : String} {parentInfo : Option ParentInfo}
    (h : ParentOk w s.loaded parentInfo) {parent : ParentInfo} (hp : parentInfo = some parent) :
    parent.workflowId ≠ w := by
  obtain ⟨-, i, hi⟩ := parent_of_run hs h hp
  intro heq
  rw [heq] at hi
  exact childWorkflowId_ne w i hi.symm

/-! ## updates -/

/-- the transaction ends `w` -/
def Txn.IsTerminalOf (w : String) (status : WorkflowStatus) (txn : Txn) : Prop :=
  (∃ result parentInfo, txn = .completeWorkflow w result parentInfo ∧ status = .completed)
    ∨ ∃ message parentInfo, txn = .failWorkflow w message parentInfo ∧ status = .failed

/-- what an update of the row `w` by the transaction `txn` tells about the task that made it -/
def RowUpdate.From (task : Task Val) (txn : Txn) (w : String) : RowUpdate → Prop
  | .lock worker _ => ∃ row, task = .claiming worker row ∧ txn = .claimNextWorkflow worker row
      ∧ w = row.workflowId
  | .waiting wait => (∃ r, task = .run r ∧ r.workflowId = w) ∧ txn = .markWorkflowWaiting w wait
  | .runAt time => (∃ r, task = .run r ∧ r.workflowId = w) ∧ txn = .updateWorkflowRunAt w time
  | .terminal status => (∃ r, task = .run r ∧ r.workflowId = w) ∧ txn.IsTerminalOf w status
  | .wake _ => (∃ T payload c, task = .request (.sendSignal w T payload) c
        ∧ txn = .writeSignalAndWakeWorkflow w T payload)
      ∨ ∃ r parent status, task = .run r ∧ txn.IsTerminalOf r.workflowId status
        ∧ parent.workflowId = w ∧ r.workflowId ≠ w
        ∧ ((∃ result, txn = .completeWorkflow r.workflowId result (some parent))
          ∨ ∃ message, txn = .failWorkflow r.workflowId message (some parent))
  | .extendLock _ => ∃ c, task = .heartbeat w c

theorem mem_writeTerminal_update {w w' : String} {ty : EventType}
    {outcome : Except PyExc (String × Json)} {status : WorkflowStatus}
    {parentInfo : Option ParentInfo} {childStatus : String} {c : Change}
    (h : Stmt.update w' c ∈ writeTerminalWorkflowEvent w ty outcome status parentInfo childStatus) :
    (w' = w ∧ c = .terminal status)
      ∨ ∃ parent, parentInfo = some parent ∧ w' = parent.workflowId ∧ c = .wake := by
  cases parentInfo <;> simpa [writeTerminalWorkflowEvent, insertInto] using h

theorem Txn.OfRun.update_from {L : Loaded} {r : Run Val} {txn : Txn}
    (h : txn.OfRun r.workflowId r.wait? L)
    (hparent : ∀ parentInfo parent, ParentOk r.workflowId L parentInfo →
      parentInfo = some parent → parent.workflowId ≠ r.workflowId)
    {w : String} {u : RowUpdate} (hu : Stmt.update w u.change ∈ txn.statements) :
    u.From (.run r) txn w := by
  cases txn with
  | createChildWorkflow p c name input i => simp [Txn.statements, insertInto] at hu
  | insertEvent w' i n ty payload => simp [Txn.statements, insertInto] at hu
  | markWorkflowWaiting w' wait =>
    obtain ⟨hw, hc⟩ : w = w' ∧ u.change = .waiting wait := by simpa [Txn.statements] using hu
    cases u <;> simp only [RowUpdate.change, Change.waiting.injEq, reduceCtorEq] at hc
    subst hc hw
    exact ⟨⟨r, rfl, h.1.symm⟩, rfl⟩
  | updateWorkflowRunAt w' time =>
    obtain ⟨hw, hc⟩ : w = w' ∧ u.change = .runAt time := by simpa [Txn.statements] using hu
    cases u <;> simp only [RowUpdate.change, Change.runAt.injEq, reduceCtorEq] at hc
    subst hc hw
    exact ⟨⟨r, rfl, h.symm⟩, rfl⟩
  | completeWorkflow w' result parentInfo =>
    obtain ⟨rfl, hp⟩ := h
    rcases mem_writeTerminal_update hu with ⟨rfl, hc⟩ | ⟨parent, rfl, rfl, hc⟩
    · cases u <;> simp only [RowUpdate.change, Change.terminal.injEq, reduceCtorEq] at hc
      subst hc
      exact ⟨⟨r, rfl, rfl⟩, .inl ⟨result, parentInfo, rfl, rfl⟩⟩
    · cases u <;> simp only [RowUpdate.change, reduceCtorEq] at hc
      exact .inr ⟨r, parent, .completed, rfl, .inl ⟨result, some parent, rfl, rfl⟩, rfl,
        (hparent _ parent hp rfl).symm, .inl ⟨result, rfl⟩⟩
  | failWorkflow w' message parentInfo =>
    obtain ⟨rfl, hp⟩ := h
    rcases mem_writeTerminal_update hu with ⟨rfl, hc⟩ | ⟨parent, rfl, rfl, hc⟩
    · cases u <;> simp only [RowUpdate.change, Change.terminal.injEq, reduceCtorEq] at hc
      subst hc
      exact ⟨⟨r, rfl, rfl⟩, .inr ⟨message, parentInfo, rfl, rfl⟩⟩
    · cases u <;> simp only [RowUpdate.change, reduceCtorEq] at hc
      exact .inr ⟨r, parent, .failed, rfl, .inr ⟨message, some parent, rfl, rfl⟩, rfl,
        (hparent _ parent hp rfl).symm, .inr ⟨message, rfl⟩⟩
  | _ => cases h

/-- **An update of a row tells the task of its thread.** -/
theorem update_origin (hs : Reachable d ok s) {t : Nat} {th : Thread Val} {x : Tx}
    (hth : s.threads[t]? = some th) (hx : th.tx = some x) {w : String} {u : RowUpdate}
    (hu : (w, u) ∈ x.updates) : u.From th.task x.txn w := by
  have hok := tx_ok hs ((Sys.tx?_eq hth).trans hx)
  obtain ⟨hres, hexec⟩ := hok.mem_updates hu
  have hmem : Stmt.update w u.change ∈ x.txn.statements := hok.executed_subset hres hexec
  rcases (issues_of_thread hs hth hx).cases with ⟨worker, row, htask, htxn⟩ | ⟨r, htask, hrun⟩
      | ⟨id, name, input, c, htask, htxn⟩ | ⟨w', T, payload, c, htask, htxn⟩ | ⟨w', c, htask, htxn⟩
  · rw [htxn] at hmem
    obtain ⟨hw, hc⟩ : w = row.workflowId ∧ u.change = .lock worker := by
      simpa [Txn.statements] using hmem
    cases u <;> simp only [RowUpdate.change, Change.lock.injEq, reduceCtorEq] at hc
    subst hc
    exact ⟨row, htask, htxn, hw⟩
  · rw [htask]
    exact hrun.update_from (fun _ _ hp hsome => parent_ne hs hp hsome) hmem
  · rw [htxn] at hmem
    simp [Txn.statements, insertInto] at hmem
  · rw [htxn] at hmem
    obtain ⟨hw, hc⟩ : w = w' ∧ u.change = .wake := by simpa [Txn.statements, insertInto] using hmem
    cases u <;> simp only [RowUpdate.change, reduceCtorEq] at hc
    subst hw
    exact .inl ⟨T, payload, c, htask, htxn⟩
  · rw [htxn] at hmem
    obtain ⟨hw, hc⟩ : w = w' ∧ u.change = .extendLock := by simpa [Txn.statements] using hmem
    cases u <;> simp only [RowUpdate.change, reduceCtorEq] at hc
    subst hw
    exact ⟨c, htask⟩

end

end TemporalLight
