import TemporalLight.Leases

/-!
# The end of a workflow

Two functions write the end of a workflow: `complete_workflow` and `fail_workflow`, both through
`_write_terminal_workflow_event`.  Two more write `status` on the row of another workflow:
`write_signal_and_wake_workflow`, after the API has read the status in a statement of its own, and
the end of a child, which wakes its parent without looking at its status at all.

* `terminal_row_step`   while runs keep their leases and no wakeup meets a row that has ended, a
                        row that has ended keeps its status;
* `terminal_ok`         and its log has exactly one terminal event.
-/

namespace TemporalLight
open Runs

section
variable {Val : Type} {d : Deployment Val} {s s' : Sys Val} {ok : Sys Val → Label Val → Prop}

/-! ## terminal transactions -/

/-- only a terminal transaction of `w` writes a terminal event to the log of `w` -/
theorem Task.Issues.terminal_of_entry {L : Loaded} {task : Task Val} {txn : Txn}
    (h : task.Issues L txn) {e : Entry} (he : e ∈ txn.statements.filterMap Stmt.event?)
    (hterm : e.eventType.isTerminal = true) :
    (∃ r, task = .run r ∧ r.workflowId = e.workflowId)
      ∧ ∃ status, txn.IsTerminalOf e.workflowId status := by
  rcases h.cases with ⟨worker, row, -, rfl⟩ | ⟨r, htask, hrun⟩ | ⟨id, name, input, c, -, rfl⟩
      | ⟨w, T, payload, c, -, rfl⟩ | ⟨w, c, -, rfl⟩
  · simp [Txn.statements, Stmt.event?] at he
  · cases txn with
    | completeWorkflow w result parentInfo =>
      obtain ⟨o, -, rfl | ⟨parent, -, rfl⟩⟩ := mem_writeTerminal he
      · exact ⟨⟨r, htask, hrun.1.symm⟩, .completed, .inl ⟨result, parentInfo, rfl, rfl⟩⟩
      · cases hterm
    | failWorkflow w message parentInfo =>
      obtain ⟨o, -, rfl | ⟨parent, -, rfl⟩⟩ := mem_writeTerminal he
      · exact ⟨⟨r, htask, hrun.1.symm⟩, .failed, .inr ⟨message, parentInfo, rfl, rfl⟩⟩
      · cases hterm
    | createChildWorkflow p c name input i =>
      simp only [Txn.statements, List.filterMap_append, List.mem_append] at he
      rcases he with ((he | he) | he) | he
      · simp [Stmt.event?] at he
      · obtain ⟨q, -, rfl⟩ := mem_insertInto he
        cases hterm
      · obtain ⟨q, -, rfl⟩ := mem_insertInto he
        cases hterm
      · simp [Stmt.event?] at he
    | insertEvent w i n ty payload =>
      obtain ⟨p, -, rfl⟩ := mem_insertInto he
      rcases hrun.2 with ⟨-, rfl | rfl | rfl | rfl⟩ | ⟨-, rfl, -⟩ <;> cases hterm
    | markWorkflowWaiting w wait => simp [Txn.statements, Stmt.event?] at he
    | updateWorkflowRunAt w time => simp [Txn.statements, Stmt.event?] at he
    | _ => cases hrun
  · simp only [Txn.statements, List.filterMap_append, List.mem_append] at he
    rcases he with he | he
    · simp [Stmt.event?] at he
    · obtain ⟨p, -, rfl⟩ := mem_insertInto he
      cases hterm
  · simp only [Txn.statements, List.filterMap_append, List.mem_append] at he
    rcases he with he | he
    · obtain ⟨p, -, rfl⟩ := mem_insertInto he
      cases hterm
    · simp [Stmt.event?] at he
  · simp [Txn.statements, Stmt.event?] at he

/-- an event that ends `w` -/
def Entry.ends (w : String) (e : Entry) : Bool := e.workflowId == w && e.eventType.isTerminal

theorem countP_ends_writeTerminal {w : String} {ty : EventType} (hty : ty.isTerminal = true)
    (outcome : String × Json) (status : WorkflowStatus) (parentInfo : Option ParentInfo)
    (childStatus : String) :
    ((writeTerminalWorkflowEvent w ty (.ok outcome) status parentInfo childStatus).filterMap
      Stmt.event?).countP (Entry.ends w) = 1 := by
  rw [writeTerminal_entries, List.countP_cons_of_pos (by simp [Entry.ends, hty]),
    List.countP_eq_zero.mpr]
  intro e he
  obtain ⟨parent, -, rfl⟩ := List.mem_map.mp he
  simp [Entry.ends, EventType.isTerminal]

theorem Txn.IsTerminalOf.countP_ends {w : String} {status : WorkflowStatus} {txn : Txn}
    (h : txn.IsTerminalOf w status)
    (hpay : ∀ w i n ty error, Stmt.insertEvent w i n ty (.error error) ∉ txn.statements) :
    (txn.statements.filterMap Stmt.event?).countP (Entry.ends w) = 1 := by
  rcases h with ⟨result, parentInfo, rfl, -⟩ | ⟨message, parentInfo, rfl, -⟩
  · cases result with
    | error error =>
      refine absurd ?_ (hpay w (-1) "workflow" .workflowCompleted error)
      exact List.mem_append_left _ (List.mem_append_left _ (List.mem_append_left _
        List.mem_cons_self))
    | ok result => exact countP_ends_writeTerminal rfl _ _ _ _
  · exact countP_ends_writeTerminal rfl _ _ _ _

theorem Txn.IsTerminalOf.updates {w : String} {status : WorkflowStatus} {txn : Txn}
    (h : txn.IsTerminalOf w status) {updates : List (String × RowUpdate)}
    (hu : updates.map (fun u => (u.1, u.2.change)) = txn.statements.filterMap Stmt.change?) :
    ∃ rest, updates = (w, .terminal status) :: rest ∧ ∀ u ∈ rest, u.2.change = .wake := by
  have hall : ∃ rest : List (String × Change), (∀ c ∈ rest, c.2 = .wake)
      ∧ txn.statements.filterMap Stmt.change? = (w, .terminal status) :: rest := by
    rcases h with ⟨result, parentInfo, rfl, rfl⟩ | ⟨message, parentInfo, rfl, rfl⟩
    · exact ⟨_, by simp, writeTerminal_changes _ _ _ _ _ _⟩
    · exact ⟨_, by simp, writeTerminal_changes _ _ _ _ _ _⟩
  obtain ⟨rest, hrest, hall⟩ := hall
  rw [hall] at hu
  obtain ⟨⟨w', u⟩, updates, rfl, hhead, hmap⟩ := List.map_eq_cons_iff.mp hu
  obtain ⟨rfl, hchange⟩ := Prod.mk.inj hhead
  cases u <;> simp only [RowUpdate.change, Change.terminal.injEq, reduceCtorEq] at hchange
  subst hchange
  refine ⟨updates, rfl, fun v hv => hrest (v.1, v.2.change) ?_⟩
  rw [← hmap]
  exact List.mem_map_of_mem (f := fun u : String × RowUpdate => (u.1, u.2.change)) hv

/-! ## the condition -/

def RowUpdate.isWake : RowUpdate → Bool
  | .wake _ => true
  | _ => false

def Sys.wakesInTime (s : Sys Val) : Label Val → Bool
  | .commit t => (s.tx? t).all fun x => x.updates.all fun u =>
      !u.2.isWake || (s.row? u.1).all fun row => !row.status.isTerminal
  | _ => true

theorem Sys.wakesInTime_commit {t : Nat} {x : Tx} {w : String} {now : Int} {row : WorkflowRecord}
    (h : s.wakesInTime (.commit t) = true) (hx : s.tx? t = some x)
    (hu : (w, .wake now) ∈ x.updates) (hrow : s.row? w = some row) :
    row.status.isTerminal = false := by
  simp only [Sys.wakesInTime, hx, Option.all_some, List.all_eq_true] at h
  have := h _ hu
  simpa [RowUpdate.isWake, hrow] using this

variable (hok : ∀ s l, ok s l → s.underLease l = true ∧ s.wakesInTime l = true)
include hok

/-- the updates of a row that has ended -/
theorem update_of_terminal (hs : Reachable d ok s) {t : Nat} {task : Task Val} {x : Tx}
    (hth : s.threads[t]? = some ⟨task, some x, true⟩) (hl : ok s (.commit t)) (hrest : x.rest = [])
    {w : String} {row : WorkflowRecord} (hrow : s.row? w = some row)
    (hterm : row.status.isTerminal = true) {u : RowUpdate} (hu : (w, u) ∈ x.updates) :
    ∃ lockedUntil, u = .extendLock lockedUntil := by
  obtain ⟨hunder, hwake⟩ := hok s _ hl
  have hx := Sys.tx?_eq hth
  -- a run of `w` that commits would hold the lease, so the row would be running
  have hrun : ∀ r : Run Val, task = .run r → r.workflowId = w → False := by
    rintro r rfl rfl
    have hlease := Sys.lease_of_underLease hunder rfl hth
    rw [running_of_lease hs hlease hrow] at hterm
    cases hterm
  have hfrom := update_origin hs hth rfl hu
  cases u with
  | lock worker lockedUntil =>
    obtain ⟨row₀, -, htxn, rfl⟩ := hfrom
    obtain ⟨hres, -⟩ := (tx_ok hs hx).mem_updates hu
    obtain ⟨hrow₀, hclaim⟩ := claimed_row hs hx hrest htxn hres
    rw [hrow] at hrow₀
    obtain rfl := Option.some.inj hrow₀
    rw [(claimable_iff hclaim).1] at hterm
    cases hterm
  | wake now =>
    rw [Sys.wakesInTime_commit hwake hx hu hrow] at hterm
    cases hterm
  | extendLock lockedUntil => exact ⟨lockedUntil, rfl⟩
  | _ =>
    obtain ⟨⟨r, htask, hw⟩, -⟩ := hfrom
    exact absurd hw (hrun r htask)

/-- **A row that has ended keeps its status.** -/
theorem terminal_row_step (hs : Reachable d ok s) {l : Label Val} (hl : ok s l)
    (hstep : Step d s l s') {w : String} {row : WorkflowRecord} (hrow : s.row? w = some row)
    (hterm : row.status.isTerminal = true) :
    ∃ row', s'.row? w = some row' ∧ row'.status = row.status := by
  rcases hstep.tables_cases with htab | ⟨t, task, x, txn, k, rfl, hth, hrest, -, rfl⟩
  · exact ⟨row, by rw [htab.row?, hrow], rfl⟩
  · refine ⟨rowAfter w x.updates row, ?_, ?_⟩
    · rw [Sys.setThread_row?, Sys.row?_publish, hrow]
      rfl
    · refine rowAfter_induction (P := fun r => r.status = row.status) (fun u hu r hr => ?_) rfl
      obtain ⟨lockedUntil, rfl⟩ := update_of_terminal hok hs hth hl hrest hrow hterm hu
      exact hr

/-! ## the terminal event -/

/-- a log has a terminal event, and only one, when its row has ended -/
def Sys.TerminalOk (s : Sys Val) : Prop := ∀ w row, s.row? w = some row →
  (s.history w).countP (fun e => e.eventType.isTerminal) = if row.status.isTerminal then 1 else 0

omit hok in
theorem countP_ends_of_commit (hs : Reachable d ok s) {t : Nat} {x : Tx} (hx : s.tx? t = some x)
    (hrest : x.rest = []) (hres : x.result = .ok true) {w : String} {status : WorkflowStatus}
    (hstatus : x.txn.IsTerminalOf w status) :
    (x.inserted.map EventRecord.toEntry).countP (Entry.ends w) = 1 := by
  have hxok := tx_ok hs hx
  have hexec := hxok.executed_of_rest hrest hres
  rw [hxok.entries hres, hexec]
  refine hstatus.countP_ends fun w i n ty error hmem => ?_
  rw [← hexec] at hmem
  exact payload_of_executed hs hx hmem

omit hok in
/-- the row of `w` after its terminal transaction -/
theorem rowAfter_of_commit (hs : Reachable d ok s) {t : Nat} {r : Run Val} {x : Tx}
    (hth : s.threads[t]? = some ⟨.run r, some x, true⟩) (hrest : x.rest = [])
    (hres : x.result = .ok true) {status : WorkflowStatus}
    (hstatus : x.txn.IsTerminalOf r.workflowId status) (row : WorkflowRecord) :
    rowAfter r.workflowId x.updates row = (RowUpdate.terminal status).apply row := by
  have hxok := tx_ok hs (Sys.tx?_eq hth)
  have hchanges := hxok.changes hres
  rw [hxok.executed_of_rest hrest hres] at hchanges
  obtain ⟨rest, hupdates, hwake⟩ := hstatus.updates hchanges
  have hne : ∀ u ∈ rest, u.1 ≠ r.workflowId := by
    intro u hu huw
    have hfrom := update_origin hs hth rfl (w := u.1) (u := u.2)
      (hupdates ▸ List.mem_cons_of_mem _ hu)
    have hw := hwake u hu
    cases hu2 : u.2 <;> rw [hu2] at hw hfrom <;> cases hw
    rcases hfrom with ⟨T, payload, c, htask, -⟩ | ⟨r', parent, status', htask, -, -, hne, -⟩
    · cases htask
    · obtain rfl := Task.run.inj htask
      exact hne huw.symm
  rw [hupdates]
  show rowAfter r.workflowId rest (if r.workflowId = r.workflowId then _ else _) = _
  rw [if_pos rfl, rowAfter_of_forall_ne hne]

/-- a terminal event ends a workflow that was running -/
theorem end_of_commit (hs : Reachable d ok s) {t : Nat} {task : Task Val} {x : Tx}
    (hth : s.threads[t]? = some ⟨task, some x, true⟩) (hl : ok s (.commit t)) (hrest : x.rest = [])
    {w : String} {e : EventRecord} (he : e ∈ x.inserted) (hends : e.toEntry.ends w = true) :
    (x.inserted.map EventRecord.toEntry).countP (Entry.ends w) = 1
      ∧ ∃ row, s.row? w = some row ∧ row.status = .running
        ∧ (rowAfter w x.updates row).status.isTerminal = true := by
  have hx := Sys.tx?_eq hth
  obtain ⟨hres, hmem⟩ := (tx_ok hs hx).mem_inserted he
  rw [(tx_ok hs hx).executed_of_rest hrest hres] at hmem
  obtain ⟨hw, hterm⟩ : e.workflowId = w ∧ e.eventType.isTerminal = true := by
    simpa [Entry.ends] using hends
  obtain ⟨⟨r, rfl, hr⟩, status, hstatus⟩ :=
    (issues_of_thread hs hth rfl).terminal_of_entry hmem hterm
  obtain rfl := hr.trans hw
  rw [hw] at hstatus
  have hlease := Sys.lease_of_underLease (hok s _ hl).1 rfl hth
  obtain ⟨row, -, -, hrow, -⟩ := (lease_ok hs _).1 t hlease
  refine ⟨countP_ends_of_commit hs hx hrest hres hstatus, row, hrow,
    running_of_lease hs hlease hrow, ?_⟩
  rw [rowAfter_of_commit hs hth hrest hres hstatus]
  rcases hstatus with ⟨_, _, -, rfl⟩ | ⟨_, _, -, rfl⟩ <;> rfl

omit hok in
theorem not_terminal_of_commit (hs : Reachable d ok s) {t : Nat} {task : Task Val} {x : Tx}
    (hth : s.threads[t]? = some ⟨task, some x, true⟩) (hrest : x.rest = []) {w : String}
    (hnone : (x.inserted.map EventRecord.toEntry).countP (Entry.ends w) = 0)
    {row : WorkflowRecord} (hrow : row.status.isTerminal = false) :
    (rowAfter w x.updates row).status.isTerminal = false := by
  refine rowAfter_induction (P := fun r => r.status.isTerminal = false) (fun u hu r hr => ?_) hrow
  cases u with
  | terminal status =>
    obtain ⟨-, hstatus⟩ := update_origin hs hth rfl hu
    obtain ⟨hres, -⟩ := (tx_ok hs (Sys.tx?_eq hth)).mem_updates hu
    have := countP_ends_of_commit hs (Sys.tx?_eq hth) hrest hres hstatus
    omega
  | waiting wait => rfl
  | wake now => rfl
  | _ => exact hr

theorem terminal_ok (hs : Reachable d ok s) : s.TerminalOk := by
  refine Reach.invariant_of_reach (I := Sys.TerminalOk) ?_ ?_ hs
  · intro w row hrow
    rw [Sys.initial_row?] at hrow
    cases hrow
  intro s l s' hr ih hl hstep w row' hrow'
  replace hstep := Step.of_step hstep
  rcases hstep.tables_cases with htab | ⟨t, task, x, txn, k, rfl, hth, hrest, hq, rfl⟩
  · rw [htab.row?] at hrow'
    rw [htab.history]
    exact ih w row' hrow'
  have hx := Sys.tx?_eq hth
  rw [Sys.setThread_history, Sys.countP_publish (ids_ok hr) hx w fun e => e.eventType.isTerminal]
  show _ + (x.inserted.map EventRecord.toEntry).countP (Entry.ends w) = _
  by_cases hend : ∃ e ∈ x.inserted, e.toEntry.ends w = true
  · obtain ⟨e, he, hends⟩ := hend
    obtain ⟨hcount, row, hrow, hrun, hterm⟩ := end_of_commit hok hr hth hl hrest he hends
    rw [Sys.setThread_row?, Sys.row?_publish, hrow] at hrow'
    obtain rfl := Option.some.inj hrow'
    rw [ih w row hrow, hcount, hterm, hrun]
    rfl
  · have hnone : (x.inserted.map EventRecord.toEntry).countP (Entry.ends w) = 0 := by
      refine List.countP_eq_zero.mpr fun e he => ?_
      obtain ⟨e', he', rfl⟩ := List.mem_map.mp he
      exact fun h => hend ⟨e', he', h⟩
    rw [hnone, Nat.add_zero]
    rcases row_of_publish hr hx hrow' with ⟨row, hrow, rfl⟩ | ⟨hrow, row, -, -, hrun, -, rfl⟩
    · rw [ih w row hrow]
      cases hterm : row.status.isTerminal with
      | false => rw [not_terminal_of_commit hr hth hrest hnone hterm]
      | true =>
        obtain ⟨row', hrow', hstatus⟩ := terminal_row_step hok hr hl hstep hrow hterm
        rw [Sys.setThread_row?, Sys.row?_publish, hrow] at hrow'
        obtain rfl := Option.some.inj hrow'
        have : (rowAfter w x.updates row).status = row.status := hstatus
        rw [this, hterm]
    · rw [not_terminal_of_commit hr hth hrest hnone (by rw [hrun]; rfl)]
      refine List.countP_eq_zero.mpr fun e he => ?_
      obtain ⟨hev, rfl⟩ := Sys.mem_history.mp he
      have hsome := row_of_event hr hev
      rw [hrow] at hsome
      cases hsome

omit hok in
/-- **Terminal states are absorbing** in every run in which the calls of a run are made under its
lease and no wakeup meets a row that has ended. -/
theorem terminal_absorbing
    (hs : Reachable d (fun s l => s.underLease l && s.wakesInTime l) s) {w : String}
    {row : WorkflowRecord} (hrow : s.row? w = some row) (hterm : row.status.isTerminal = true) :
    (s.history w).countP (fun e => e.eventType.isTerminal) = 1
      ∧ ∀ s', Reach (Sys.step d) (fun s l => s.underLease l && s.wakesInTime l) s s' →
        (s'.row? w).map (·.status) = some row.status := by
  have hok : ∀ (s : Sys Val) (l : Label Val), (s.underLease l && s.wakesInTime l) = true →
      s.underLease l = true ∧ s.wakesInTime l = true := fun s l h => by simpa using h
  refine ⟨by rw [terminal_ok hok hs w row hrow, hterm]; rfl, fun s' hs' => ?_⟩
  have hboth := Reach.invariant (I := fun s' => Reachable d _ s' ∧ ∃ row', s'.row? w = some row'
    ∧ row'.status = row.status) ⟨hs, row, hrow, rfl⟩ ?_ hs'
  · obtain ⟨-, row', hrow', hstatus⟩ := hboth
    rw [hrow', Option.map_some, hstatus]
  · rintro s₁ l s₂ ⟨hr, row₁, hrow₁, hstatus₁⟩ hl hstep
    obtain ⟨row₂, hrow₂, hstatus₂⟩ := terminal_row_step hok hr hl (Step.of_step hstep) hrow₁
      (by rw [hstatus₁]; exact hterm)
    exact ⟨.step l hr hl hstep, row₂, hrow₂, hstatus₂.trans hstatus₁⟩

end

/-! ## a signal that comes too late -/

def returns : Deployment Json :=
  .plain fun _ => some fun _ _ => .ret (.ok .null)

/-- the workflow is started and claimed, the API reads its status, and it completes -/
def completesUnderSignal : List (Label Json) :=
  [.request (.startWorkflow .w "n" (.obj []))] ++ transact 0 3
    ++ [.claim "A" (newRow "w" "n" none 0)] ++ transact 1 2
    ++ [.request (.sendSignal "w" "T" .null), .read 2]
    ++ [.read 1, .advance 1] ++ transact 1 4

/-- then the signal is written, which makes the row RUNNING, and the workflow runs once more -/
def runsAgain : List (Label Json) :=
  [.claim "B" (newRow "w" "n" none 0)] ++ transact 3 2 ++ [.read 3, .advance 3] ++ transact 3 4

/-- the workflow completes, as long as the signal is not written -/
theorem terminal_absorbing_once : ∃ s : Sys Json, s.hasStatus "w" .completed = true
    ∧ (s.history "w").countP (fun e => e.eventType.isTerminal) = 1 := by
  have hrun : (follow (Sys.step returns) (fun s l => s.underLease l && s.wakesInTime l)
      Sys.initial completesUnderSignal).any (·.hasStatus "w" .completed) = true := by
    decide +kernel
  obtain ⟨s, hs, hstatus⟩ := Reach.exists_of_follow _ hrun
  obtain ⟨row, hrow, hrow'⟩ := (Option.any_eq_true _ _).mp hstatus
  rw [beq_iff_eq] at hrow'
  exact ⟨s, hstatus, (terminal_absorbing hs hrow (by rw [hrow']; rfl)).1⟩

/-- A signal accepted while the workflow was running is written after it has completed: the status
goes back to RUNNING, and the log gets a second terminal event. -/
theorem terminal_revived : ∃ s s' s'' : Sys Json,
    Reachable returns (fun s l => s.underLease l) s
      ∧ Reach (Sys.step returns) (fun s l => s.underLease l) s s'
      ∧ Reach (Sys.step returns) (fun s l => s.underLease l) s' s''
      ∧ s.hasStatus "w" .completed = true ∧ s'.hasStatus "w" .running = true
      ∧ s''.hasStatus "w" .completed = true
      ∧ (s''.history "w").countP (fun e => e.eventType.isTerminal) = 2 := by
  let twice (s : Sys Json) : Bool := s.hasStatus "w" .completed
    && (s.history "w").countP (fun e => e.eventType.isTerminal) == 2
  let revived (s : Sys Json) : Bool := s.hasStatus "w" .running
    && (follow (Sys.step returns) Sys.underLease s runsAgain).any twice
  have hrun : (follow (Sys.step returns) Sys.underLease Sys.initial completesUnderSignal).any
      (fun s => s.hasStatus "w" .completed
        && (follow (Sys.step returns) Sys.underLease s (transact 2 4)).any revived) = true := by
    decide +kernel
  obtain ⟨s, hs, h⟩ := Reach.exists_of_follow _ hrun
  obtain ⟨hcompleted, h⟩ := Bool.and_eq_true_iff.mp h
  obtain ⟨s', hs', h⟩ := Reach.exists_of_follow _ h
  obtain ⟨hrunning, h⟩ := Bool.and_eq_true_iff.mp h
  obtain ⟨s'', hs'', h⟩ := Reach.exists_of_follow _ h
  obtain ⟨hagain, h⟩ := Bool.and_eq_true_iff.mp h
  exact ⟨s, s', s'', hs, hs', hs'', hcompleted, hrunning, hagain, beq_iff_eq.mp h⟩

end TemporalLight
