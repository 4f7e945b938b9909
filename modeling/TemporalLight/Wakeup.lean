import TemporalLight.Signals

/-!
# No wakeup is lost

A run that waits first marks its row WAITING, in a transaction that locks the row and looks for the
answer once more; a thread that writes an answer wakes the row in the same transaction.

* `wake_of_answer`       an answer and the wakeup are committed together;
* `unanswered_of_check`  after the check, and until the mark commits, no answer is committed;
* `waiting_ok`           hence a row that is WAITING has no answer in its log;
* `answered_of_refused`  and a mark that is refused has an answer in the log;
* `waitFor_residual`     the code that follows a refused mark reads the log and returns the answer.
-/

namespace TemporalLight
open Runs Resumption

section
variable {Val : Type} {d : Deployment Val} {s s' : Sys Val} {ok : Sys Val → Label Val → Prop}

/-! ## answers wake -/

theorem rowAfter_of_forall_wake {w : String} {updates : List (String × RowUpdate)}
    (hall : ∀ u, (w, u) ∈ updates → ∃ now, u = .wake now) {u : RowUpdate} (hu : (w, u) ∈ updates)
    (row : WorkflowRecord) : (rowAfter w updates row).status = .running := by
  induction updates generalizing row with
  | nil => cases hu
  | cons v updates ih =>
    have hall' : ∀ u, (w, u) ∈ updates → ∃ now, u = .wake now :=
      fun u hu => hall u (List.mem_cons_of_mem _ hu)
    rcases List.mem_cons.mp hu with rfl | hu
    · obtain ⟨now, rfl⟩ := hall u List.mem_cons_self
      show (rowAfter w updates (if w = w then _ else _)).status = _
      rw [if_pos rfl]
      refine rowAfter_induction (P := fun r => r.status = .running) (fun v hv r hr => ?_) rfl
      obtain ⟨now', rfl⟩ := hall' v hv
      rfl
    · exact ih hall' hu _

/-- the transactions that write an answer -/
theorem Task.Issues.of_answer {L : Loaded} {task : Task Val} {txn : Txn} (h : task.Issues L txn)
    {e : EventRecord} (he : e.toEntry ∈ txn.statements.filterMap Stmt.event?) {wait : Wait}
    (hans : wait.isAnswer e = true) :
    (∃ T payload, txn = .writeSignalAndWakeWorkflow e.workflowId T payload)
      ∨ ∃ r parent status childStatus outcome, task = .run r
        ∧ ParentOk r.workflowId L (some parent) ∧ txn.IsTerminalOf r.workflowId status
        ∧ e.toEntry = ⟨parent.workflowId, -1, "signal", .signal,
          childSignalPayload parent childStatus outcome⟩
        ∧ txn.statements.filterMap Stmt.change?
          = [(r.workflowId, .terminal status), (e.workflowId, .wake)] := by
  have hty := (EventRecord.isSignal_iff.mp (Wait.isAnswer_isSignal hans)).2
  rcases h.cases with ⟨worker, row, -, rfl⟩ | ⟨r, htask, hrun⟩ | ⟨id, name, input, c, -, rfl⟩
      | ⟨w, T, payload, c, -, rfl⟩ | ⟨w, c, -, rfl⟩
  · simp [Txn.statements, Stmt.event?] at he
  · cases txn with
    | completeWorkflow w result parentInfo =>
      obtain ⟨o, -, heq | ⟨parent, rfl, heq⟩⟩ := mem_writeTerminal he
      · rw [heq] at hty
        cases hty
      · refine .inr ⟨r, parent, .completed, "completed", o, htask, hrun.2,
          .inl ⟨_, _, by rw [hrun.1], rfl⟩, heq, ?_⟩
        rw [heq, ← hrun.1]
        rfl
    | failWorkflow w message parentInfo =>
      obtain ⟨o, -, heq | ⟨parent, rfl, heq⟩⟩ := mem_writeTerminal he
      · rw [heq] at hty
        cases hty
      · refine .inr ⟨r, parent, .failed, "failed", o, htask, hrun.2,
          .inr ⟨_, _, by rw [hrun.1], rfl⟩, heq, ?_⟩
        rw [heq, ← hrun.1]
        rfl
    | createChildWorkflow p c name input i =>
      simp only [Txn.statements, List.filterMap_append, List.mem_append] at he
      rcases he with ((he | he) | he) | he
      · simp [Stmt.event?] at he
      · obtain ⟨q, -, heq⟩ := mem_insertInto he
        rw [heq] at hty
        cases hty
      · obtain ⟨q, -, heq⟩ := mem_insertInto he
        rw [heq] at hty
        cases hty
      · simp [Stmt.event?] at he
    | insertEvent w i n ty payload =>
      obtain ⟨p, rfl, heq⟩ := mem_insertInto he
      rcases hrun.2 with ⟨-, hty'⟩ | ⟨-, -, wait', hw⟩
      · rw [heq] at hty
        rcases hty' with rfl | rfl | rfl | rfl <;> cases hty
      · -- a marker answers no wait
        have hp : e.payload = wait'.markerPayload := by
          rw [heq]
          exact Except.ok.inj hw
        cases wait <;> cases wait' <;> simp [Wait.isAnswer, isReceivedSignal, isChildResultSignal,
          hp, Wait.markerPayload, Json.getIs] at hans
    | markWorkflowWaiting w wait => simp [Txn.statements, Stmt.event?] at he
    | updateWorkflowRunAt w time => simp [Txn.statements, Stmt.event?] at he
    | _ => cases hrun
  · simp only [Txn.statements, List.filterMap_append, List.mem_append] at he
    rcases he with he | he
    · simp [Stmt.event?] at he
    · obtain ⟨p, -, heq⟩ := mem_insertInto he
      rw [heq] at hty
      cases hty
  · simp only [Txn.statements, List.filterMap_append, List.mem_append] at he
    rcases he with he | he
    · obtain ⟨p, -, heq⟩ := mem_insertInto he
      exact .inl ⟨T, payload, by rw [heq]⟩
    · simp [Stmt.event?] at he
  · simp [Txn.statements, Stmt.event?] at he

/-- **An answer and the wakeup are committed together.** -/
theorem wake_of_answer (hs : Reachable d ok s) {t : Nat} {task : Task Val} {x : Tx}
    (hth : s.threads[t]? = some ⟨task, some x, true⟩) (hrest : x.rest = []) {e : EventRecord}
    (he : e ∈ x.inserted) {wait : Wait} (hans : wait.isAnswer e = true) (row : WorkflowRecord) :
    (rowAfter e.workflowId x.updates row).status = .running := by
  have hxok := tx_ok hs (Sys.tx?_eq hth)
  obtain ⟨hres, hmem⟩ := hxok.mem_inserted he
  have hchanges := hxok.changes hres
  rw [hxok.executed_of_rest hrest hres] at hmem hchanges
  have hissues : task.Issues s.loaded x.txn := issues_of_thread hs hth rfl
  -- the last update of the transaction is the wakeup, and no other one is of this row
  have hlast : ∃ u, (e.workflowId, u) ∈ x.updates ∧ u.change = .wake := by
    have hc : (e.workflowId, Change.wake) ∈ x.txn.statements.filterMap Stmt.change? := by
      rcases hissues.of_answer hmem hans with ⟨T, payload, htxn⟩
          | ⟨r, parent, status, _, _, -, -, -, -, hc⟩
      · rw [htxn]
        exact List.mem_singleton.mpr rfl
      · rw [hc]
        exact List.mem_cons_of_mem _ List.mem_cons_self
    rw [← hchanges] at hc
    obtain ⟨⟨w, u⟩, hu, heq⟩ := List.mem_map.mp hc
    obtain ⟨rfl, hc⟩ := Prod.mk.inj heq
    exact ⟨u, hu, hc⟩
  obtain ⟨u, hu, -⟩ := hlast
  refine rowAfter_of_forall_wake (fun v hv => ?_) hu row
  have hfrom := update_origin hs hth rfl hv
  have hc : (e.workflowId, v.change) ∈ x.txn.statements.filterMap Stmt.change? := by
    rw [← hchanges]
    exact List.mem_map_of_mem (f := fun u : String × RowUpdate => (u.1, u.2.change)) hv
  rcases hissues.of_answer hmem hans with ⟨T, payload, htxn⟩
      | ⟨r, parent, status, _, _, -, hparent, -, hentry, hchange⟩
  · rw [htxn] at hc
    have hwake : v.change = .wake := (Prod.mk.inj (List.mem_singleton.mp hc)).2
    cases v <;> cases hwake
    exact ⟨_, rfl⟩
  · rw [hchange] at hc
    rcases List.mem_cons.mp hc with heq | hc
    · -- the workflow that ends is not its own parent
      have hw : parent.workflowId = e.workflowId := by rw [hentry]
      exact absurd (hw.trans (Prod.mk.inj heq).1) (parent_ne hs hparent rfl)
    · have hwake : v.change = .wake := (Prod.mk.inj (List.mem_singleton.mp hc)).2
      cases v <;> cases hwake
      exact ⟨_, rfl⟩

/-! ## the check of a mark -/

theorem Txn.lock_of_check {txn : Txn} {pre post : List Stmt} {w : String} {wait : Wait}
    (h : txn.statements = pre ++ .returnIfAnswered w wait :: post) :
    Stmt.selectForUpdate w ∈ pre ∧ txn = .markWorkflowWaiting w wait := by
  have hmem : Stmt.returnIfAnswered w wait ∈ txn.statements :=
    h ▸ List.mem_append_right _ List.mem_cons_self
  cases txn with
  | markWorkflowWaiting w' wait' =>
    obtain ⟨rfl, rfl⟩ : w = w' ∧ wait = wait' := by simpa [Txn.statements] using hmem
    cases pre with
    | nil => cases h
    | cons a pre =>
      obtain ⟨rfl, -⟩ := List.cons.inj h
      exact ⟨List.mem_cons_self, rfl⟩
  | completeWorkflow w' result parent =>
    cases parent <;> simp [Txn.statements, writeTerminalWorkflowEvent, insertInto] at hmem
  | failWorkflow w' message parent =>
    cases parent <;> simp [Txn.statements, writeTerminalWorkflowEvent, insertInto] at hmem
  | _ => simp [Txn.statements, insertInto] at hmem

theorem lock_of_checked (hs : Reachable d ok s) {t : Nat} {x : Tx} (hx : s.tx? t = some x)
    {w : String} {wait : Wait} (hchk : Stmt.returnIfAnswered w wait ∈ x.executed) :
    (w, .forUpdate) ∈ x.locks := by
  suffices Stmt.selectForUpdate w ∈ x.executed from Tx.mem_locks this rfl
  refine (tx_invariant (P := fun x => x.Ok ∧ (Stmt.returnIfAnswered w wait ∈ x.executed →
    Stmt.selectForUpdate w ∈ x.executed)) ?_ ?_ hs hx).2 hchk
  · exact fun txn now => ⟨Tx.ok_start txn now, nofun⟩
  · intro s t x x' stmt rest h hrest hafter
    refine ⟨h.1.after hrest hafter, fun hmem => ?_⟩
    rcases Tx.after_cases hafter with ⟨_, -, rfl⟩ | ⟨-, rfl⟩ | ⟨hp, rfl⟩
    · exact h.2 hmem
    · exact h.2 hmem
    · rcases List.mem_append.mp hmem with hmem | hmem
      · exact List.mem_append_left _ (h.2 hmem)
      · obtain rfl := List.mem_singleton.mp hmem
        have horder := h.1.order (h.1.result_of_rest hrest)
        rw [hrest] at horder
        exact List.mem_append_left _ (Txn.lock_of_check horder.symm).1

theorem Sys.effect_check {t : Nat} {x : Tx} {w : String} {wait : Wait}
    (h : (s.effect d t x (.returnIfAnswered w wait)).proceeds = true) :
    ∀ e ∈ s.events, answerMatches d.jsonbText w wait e = false := by
  simp only [Sys.effect] at h
  split at h
  · cases h
  · rename_i hnone
    intro e he
    by_contra hmatch
    exact hnone (List.any_eq_true.mpr ⟨e, he, by simpa using hmatch⟩)

theorem answerMatches_workflowId {render : Json → String} {w : String} {wait : Wait}
    {e : EventRecord} (h : answerMatches render w wait e = true) : e.workflowId = w := by
  cases wait <;> simp only [answerMatches, signalMatches, completionMatches, Bool.and_eq_true,
    beq_iff_eq] at h <;> exact h.1.1.1

/-- **After the check no answer is committed before the mark.** -/
theorem unanswered_of_check (hs : Reachable d ok s) {t : Nat} {x : Tx} (hx : s.tx? t = some x)
    {w : String} {wait : Wait} (hchk : Stmt.returnIfAnswered w wait ∈ x.executed) :
    ∀ e ∈ s.events, answerMatches d.jsonbText w wait e = false := by
  refine Reach.invariant_of_reach (I := fun s : Sys Val => ∀ t x, s.tx? t = some x →
    Stmt.returnIfAnswered w wait ∈ x.executed →
      ∀ e ∈ s.events, answerMatches d.jsonbText w wait e = false) ?_ ?_ hs t x hx hchk
  · intro t x hx
    rw [Sys.initial_tx?] at hx
    cases hx
  · intro s l s' hr ih _ hl t x hx hchk
    have hstep := Step.of_step hl
    rcases hstep.tables_cases with htab | ⟨u, task, y, txn, k, rfl, hth, hrest, -, hs'⟩
    · rw [htab.events]
      rcases hstep.tx_cases hx with ⟨hx, -⟩ | ⟨_, _, _, -, -, -, rfl⟩
          | ⟨x₀, stmt, rest, -, hx₀, -, hafter⟩
      · exact ih t x hx hchk
      · cases hchk
      · rcases Tx.after_cases hafter with ⟨_, -, rfl⟩ | ⟨-, rfl⟩ | ⟨hp, rfl⟩
        · exact ih t x₀ hx₀ hchk
        · exact ih t x₀ hx₀ hchk
        · rcases List.mem_append.mp hchk with hchk | hchk
          · exact ih t x₀ hx₀ hchk
          · obtain rfl := List.mem_singleton.mp hchk
            exact Sys.effect_check hp
    · -- the thread that commits cannot write to the log of a row that `t` has locked
      have htu : t ≠ u := by
        rintro rfl
        exact hstep.ne_commit hx rfl
      have hx₀ : s.tx? t = some x := by
        rcases hstep.tx_cases hx with ⟨hx, -⟩ | ⟨_, _, _, hl, -⟩ | ⟨_, _, _, hl, -⟩
        · exact hx
        · cases hl
        · cases hl
      have hframe := frame_of_forUpdate hr (Ne.symm htu) (Sys.tx?_eq hth) hx₀
        (lock_of_checked hr hx₀ hchk)
      intro e he
      rw [hs'] at he
      rcases (mem_events_publish (t := u)).mp he with he | he
      · exact ih t x hx₀ hchk e he
      · by_contra hmatch
        exact hframe.2 hrest e he (answerMatches_workflowId (by simpa using hmatch))

/-! ## waiting rows -/

/-- no wait that has marked a WAITING row has an answer in the log -/
def Sys.WaitingOk (s : Sys Val) : Prop := ∀ w row, s.row? w = some row → row.status = .waiting →
  ∀ wait ∈ s.waits w, ∀ e ∈ s.history w, wait.isAnswer e = false

/-- the waits of a row after a commit are the old ones, or that of the mark -/
theorem mem_waitsAfter {status : String → Option WorkflowStatus} {waits : String → List Wait}
    {updates : List (String × RowUpdate)} {w : String} {wait : Wait}
    (h : wait ∈ waitsAfter status waits updates w) :
    wait ∈ waits w ∧ (status w = some .waiting ∨ ∀ wait', (w, .waiting wait') ∉ updates)
      ∨ (w, .waiting wait) ∈ updates := by
  induction updates generalizing waits with
  | nil => exact .inl ⟨h, .inr nofun⟩
  | cons v updates ih =>
    obtain ⟨w', u⟩ := v
    have hnext := @ih _ h
    rcases hnext with ⟨hmem, hcond⟩ | hmem
    · by_cases hw : w = w'
      · subst hw
        cases u with
        | waiting wait' =>
          simp only [if_true] at hmem
          rcases List.mem_cons.mp hmem with rfl | hmem
          · exact .inr List.mem_cons_self
          · split at hmem
            · rename_i hstatus
              exact .inl ⟨hmem, .inl hstatus⟩
            · cases hmem
        | _ => exact .inl ⟨hmem, hcond.imp id fun hn wait' hm => by
            rcases List.mem_cons.mp hm with heq | hm
            · cases heq
            · exact hn wait' hm⟩
      · refine .inl ⟨?_, hcond.imp id fun hn wait' hm => ?_⟩
        · cases u <;> simpa [hw] using hmem
        · rcases List.mem_cons.mp hm with heq | hm
          · exact hw (Prod.mk.inj heq).1
          · exact hn wait' hm
    · exact .inr (List.mem_cons_of_mem _ hmem)

theorem waiting_of_rowAfter {w : String} {updates : List (String × RowUpdate)}
    {row : WorkflowRecord} (hnone : ∀ wait, (w, .waiting wait) ∉ updates)
    (hterm : ∀ status, (w, .terminal status) ∈ updates → status.isTerminal = true)
    (h : (rowAfter w updates row).status = .waiting) : row.status = .waiting := by
  by_contra hne
  refine rowAfter_induction (P := fun r => r.status ≠ .waiting) (fun u hu r hr => ?_) hne h
  cases u with
  | waiting wait => exact absurd hu (hnone wait)
  | terminal status =>
    intro heq
    have hstatus := hterm status hu
    have hw : status = .waiting := heq
    rw [hw] at hstatus
    cases hstatus
  | wake now => exact nofun
  | _ => exact hr

theorem Step.waiting_ok (hs : Reachable d ok s) {l : Label Val} (hstep : Step d s l s')
    (h : s.WaitingOk) : s'.WaitingOk := by
  intro w row' hrow' hwaiting wait hwait e he
  rcases hstep.tables_cases with htab | ⟨t, task, x, txn, k, rfl, hth, hrest, -, rfl⟩
  · rw [htab.row?] at hrow'
    rw [htab.waits] at hwait
    rw [htab.history] at he
    exact h w row' hrow' hwaiting wait hwait e he
  have hx := Sys.tx?_eq hth
  have hafter : ∃ row, row' = rowAfter w x.updates row
      ∧ (s.row? w = some row ∨ row.status = .running) := by
    rcases row_of_publish hs hx hrow' with ⟨row, hrow, heq⟩ | ⟨-, row, -, -, hrun, -, heq⟩
    · exact ⟨row, heq, .inl hrow⟩
    · exact ⟨row, heq, .inr hrun⟩
  obtain ⟨row, rfl, hrow⟩ := hafter
  by_contra hans
  rw [Bool.not_eq_false] at hans
  obtain ⟨hev, rfl⟩ := Sys.mem_history.mp he
  rcases (mem_events_publish (t := t)).mp hev with hev | hev
  · rcases mem_waitsAfter hwait with ⟨hmem, hcond⟩ | hmark
    · -- the row was WAITING already
      have hold : ∃ row₀, s.row? e.workflowId = some row₀ ∧ row₀.status = .waiting := by
        rcases hcond with hstatus | hnone
        · obtain ⟨row₀, hrow₀, hst⟩ := Option.map_eq_some_iff.mp hstatus
          exact ⟨row₀, hrow₀, hst⟩
        · have hterm : ∀ status, (e.workflowId, .terminal status) ∈ x.updates →
              status.isTerminal = true := by
            intro status hu
            rcases (update_origin hs hth rfl hu).2 with ⟨_, _, -, rfl⟩ | ⟨_, _, -, rfl⟩ <;> rfl
          have hst := waiting_of_rowAfter hnone hterm hwaiting
          rcases hrow with hrow | hrun
          · exact ⟨row, hrow, hst⟩
          · rw [hrun] at hst
            cases hst
      obtain ⟨row₀, hrow₀, hst⟩ := hold
      have := h e.workflowId row₀ hrow₀ hst wait hmem e (Sys.mem_history.mpr ⟨hev, rfl⟩)
      rw [hans] at this
      cases this
    · -- it has just been marked, after the check
      obtain ⟨-, htxn⟩ := update_origin hs hth rfl hmark
      obtain ⟨hres, -⟩ := (tx_ok hs hx).mem_updates hmark
      have hchk : Stmt.returnIfAnswered e.workflowId wait ∈ x.executed := by
        rw [(tx_ok hs hx).executed_of_rest hrest hres, htxn]
        exact List.mem_cons_of_mem _ List.mem_cons_self
      have := unanswered_of_check hs hx hchk e hev
      rw [answerMatches_of_isAnswer (entry_ok hs hev) hans] at this
      cases this
  · -- a new answer would have woken the row
    rw [wake_of_answer hs hth hrest hev hans] at hwaiting
    cases hwaiting

theorem waiting_ok (hs : Reachable d ok s) : s.WaitingOk := by
  refine Reach.invariant_of_reach (I := Sys.WaitingOk) ?_
    (fun s l s' hr h _ hl => (Step.of_step hl).waiting_ok hr h) hs
  intro w row hrow
  rw [Sys.initial_row?] at hrow
  cases hrow

/-! ## a mark that is refused -/

theorem Sys.effect_refused {t : Nat} {x : Tx} {w : String} {wait : Wait} {stmt : Stmt}
    (hmem : stmt ∈ (Txn.markWorkflowWaiting w wait).statements)
    (h : s.effect d t x stmt = .returned) :
    ∃ e ∈ s.events, answerMatches d.jsonbText w wait e = true := by
  have hstmt : stmt = .returnIfAnswered w wait := by
    have hret := Sys.mayReturn_of_effect h
    simp only [Txn.statements, List.mem_cons, List.not_mem_nil, or_false] at hmem
    rcases hmem with rfl | rfl | rfl
    · cases hret
    · rfl
    · cases hret
  subst hstmt
  simp only [Sys.effect] at h
  split at h
  · rename_i hany
    exact List.any_eq_true.mp hany
  · cases h

/-- **A mark that is refused has an answer in the log.** -/
theorem answered_of_refused (hs : Reachable d ok s) {t : Nat} {x : Tx} (hx : s.tx? t = some x)
    {w : String} {wait : Wait} (htxn : x.txn = .markWorkflowWaiting w wait)
    (hres : x.result = .ok false) :
    ∃ e ∈ s.events, answerMatches d.jsonbText w wait e = true := by
  refine Reach.invariant_of_reach (I := fun s : Sys Val => ∀ t x, s.tx? t = some x →
    x.txn = .markWorkflowWaiting w wait → x.result = .ok false →
      ∃ e ∈ s.events, answerMatches d.jsonbText w wait e = true) ?_ ?_ hs t x hx htxn hres
  · intro t x hx
    rw [Sys.initial_tx?] at hx
    cases hx
  · intro s l s' hr ih _ hl t x hx htxn hres
    have hstep := Step.of_step hl
    have hmono : (∃ e ∈ s.events, answerMatches d.jsonbText w wait e = true) →
        ∃ e ∈ s'.events, answerMatches d.jsonbText w wait e = true :=
      fun ⟨e, he, hm⟩ => ⟨e, hstep.mem_events he, hm⟩
    rcases hstep.tx_cases hx with ⟨hx, -⟩ | ⟨_, _, _, -, -, -, rfl⟩
        | ⟨x₀, stmt, rest, -, hx₀, hrest, hafter⟩
    · exact hmono (ih t x hx htxn hres)
    · cases hres
    · rcases Tx.after_cases hafter with ⟨_, -, rfl⟩ | ⟨heff, rfl⟩ | ⟨-, rfl⟩
      · cases hres
      · have horder := (tx_ok hr hx₀).order ((tx_ok hr hx₀).result_of_rest hrest)
        rw [hrest, show x₀.txn = .markWorkflowWaiting w wait from htxn] at horder
        exact hmono (Sys.effect_refused
          (horder ▸ List.mem_append_right _ List.mem_cons_self) heff)
      · exact hmono (ih t x₀ hx₀ htxn hres)

/-- what `wait_for_child` and `wait_for_signal` do after a refused mark -/
def Wait.afterRefusal (rt : Runtime Val) (workflowId : String) (wait : Wait) :
    Resumption (Call Val) Call.Reply (Except PyExc Val) :=
  .call (.loadEventHistory workflowId) fun history =>
    match history.find? wait.isAnswer with
    | some answer => .pure (wait.outcome rt answer)
    | none => .pure (.error (.workflowSuspended wait.suspensionText))

theorem run_suspendUnlessAnswered (rt : Runtime Val) (ctx : WorkflowContext) (wait : Wait) :
    (suspendUnlessAnswered rt ctx wait).run
      = .call (.transaction (.markWorkflowWaiting ctx.workflowId wait)) fun reply =>
        match reply with
        | .error error => .pure (.error error)
        | .ok true => .pure (.error (.workflowSuspended wait.suspensionText))
        | .ok false => wait.afterRefusal rt ctx.workflowId := by
  unfold suspendUnlessAnswered
  rw [Wait.mark_eq, run_bind, run_transaction]
  show Resumption.call _ _ = _
  congr 1
  funext reply
  match reply with
  | .error error => rfl
  | .ok true => rfl
  | .ok false =>
    show Resumption.call _ _ = Resumption.call _ _
    congr 1

theorem run_waitFor (rt : Runtime Val) (ctx : WorkflowContext) (wait : Wait) :
    (waitFor rt ctx wait).run = match ctx.eventHistory.find? wait.isAnswer with
      | some answer => .pure (wait.outcome rt answer)
      | none =>
        if wait.hasMarker ctx.eventHistory then (suspendUnlessAnswered rt ctx wait).run
        else .call (.transaction (.insertEvent ctx.workflowId (-1) wait.markerName .signal
            (.ok wait.markerPayload))) fun reply =>
          match reply with
          | .error error => .pure (.error error)
          | .ok _ => .call (.pgNotify ctx.workflowId) fun _ =>
            (suspendUnlessAnswered rt ctx wait).run := by
  unfold waitFor
  show ExceptT.run (match ctx.eventHistory.find? wait.isAnswer with
    | some answer => _
    | none => _) = _
  split
  · rfl
  · cases hm : wait.hasMarker ctx.eventHistory with
    | true => rfl
    | false =>
      show Resumption.call _ _ = Resumption.call _ _
      congr 1
      funext reply
      cases reply <;> rfl

theorem residual_suspendUnlessAnswered {rt : Runtime Val} {ctx : WorkflowContext} {wait : Wait}
    {txn : Txn} {k : (Call.transaction txn : Call Val).Reply → Resumption (Call Val) Call.Reply _}
    (h : (suspendUnlessAnswered rt ctx wait).run.Residual (.call (.transaction txn) k)) :
    k (.ok false) = wait.afterRefusal rt ctx.workflowId := by
  rw [run_suspendUnlessAnswered] at h
  rcases residual_call h with heq | ⟨reply, h⟩
  · obtain ⟨hq, hk⟩ := Resumption.call.inj heq
    obtain rfl := Call.transaction.inj hq
    rw [eq_of_heq hk]
  · match reply, h with
    | .error error, h => cases residual_pure h
    | .ok true, h => cases residual_pure h
    | .ok false, h =>
      rcases residual_call h with heq | ⟨history, h⟩
      · cases heq
      · split at h <;> cases residual_pure h

/-- **After a refused mark the code reads the log and returns the answer.** -/
theorem residual_waitFor {rt : Runtime Val} {ctx : WorkflowContext} {wait wait' : Wait} {w : String}
    {k : (Call.transaction (.markWorkflowWaiting w wait') : Call Val).Reply →
      Resumption (Call Val) Call.Reply _}
    (h : (waitFor rt ctx wait).run.Residual
      (.call (.transaction (.markWorkflowWaiting w wait')) k)) :
    k (.ok false) = wait.afterRefusal rt ctx.workflowId := by
  rw [run_waitFor] at h
  split at h
  · cases residual_pure h
  · split at h
    · exact residual_suspendUnlessAnswered h
    · rcases residual_call h with heq | ⟨reply, h⟩
      · cases heq
      · match reply, h with
        | .error error, h => cases residual_pure h
        | .ok _, h =>
          rcases residual_call h with heq | ⟨_, h⟩
          · cases heq
          · exact residual_suspendUnlessAnswered h

theorem executeStep_of_wait? {rt : Runtime Val} {ctx : WorkflowContext} {action : Action Val}
    {wait : Wait} (h : action.wait? = some wait) :
    executeStep rt ctx action = waitFor rt ctx wait := by
  cases action <;> simp only [Action.wait?, Option.some.injEq, reduceCtorEq] at h
  all_goals subst h; rfl

/-- the thread after a refused mark -/
theorem afterRefusal_of_commit (hs : Reachable d ok s) {t : Nat} {task : Task Val} {x : Tx}
    (hth : s.threads[t]? = some ⟨task, some x, true⟩) {w : String} {wait : Wait}
    (htxn : x.txn = .markWorkflowWaiting w wait) (hres : x.result = .ok false)
    (hstep : Step d s (.commit t) s') :
    ∃ r c, s'.threads[t]? = some ⟨.run r, none, true⟩ ∧ r.code = .stepping c
      ∧ c.run = wait.afterRefusal d.toRuntime w := by
  -- only a run in a wait of this kind marks its row
  obtain ⟨r, rfl, hw, hwait⟩ : ∃ r, task = .run r ∧ w = r.workflowId ∧ r.wait? = some wait := by
    rcases (issues_of_thread hs hth rfl).cases with ⟨_, _, -, h⟩ | ⟨r, htask, hrun⟩
        | ⟨_, _, _, _, -, h⟩ | ⟨_, _, _, _, -, h⟩ | ⟨_, _, -, h⟩
    · cases htxn.symm.trans h
    · rw [htxn] at hrun
      exact ⟨r, htask, hrun.1, hrun.2⟩
    · cases htxn.symm.trans h
    · cases htxn.symm.trans h
    · cases htxn.symm.trans h
  have hok : r.Ok d.toRuntime (d.workflowRegistry t) s.loaded := task_ok hs hth
  have hcode := hok.code
  unfold Run.CodeOk at hcode
  unfold Run.wait? at hwait
  cases hstep with
  | @commit _ task' x' txn k hth' hrest hq =>
    obtain ⟨htask, hx⟩ := Thread.mk.inj (Option.some.inj (hth.symm.trans hth'))
    obtain rfl := Option.some.inj hx.1
    obtain rfl := htask
    have htxn' : txn = .markWorkflowWaiting w wait := by
      obtain ⟨-, k', hk'⟩ := txn_of_thread hs hth rfl
      have hsig := Option.some.inj (hq.symm.trans hk')
      exact (Call.transaction.inj (Sigma.mk.inj hsig).1).trans htxn
    subst htxn'
    cases hc : r.code with
    | stepping c =>
      rw [hc] at hcode hwait
      obtain ⟨n, hn, hnk⟩ := Option.map_eq_some_iff.mp hq
      unfold Run.next? at hn
      rw [hc] at hn
      obtain ⟨m, hm, rfl⟩ := Option.map_eq_some_iff.mp hn
      obtain ⟨q, c'⟩ := m
      obtain ⟨rfl, hk⟩ := Sigma.mk.inj hnk
      obtain rfl := eq_of_heq hk
      have hrefused : c' (.ok false) = wait.afterRefusal d.toRuntime w := by
        have hresidual := hcode.2.2.2.1
        rw [Resumption.pending?_eq_some hm, executeStep_of_wait? hwait] at hresidual
        refine (residual_waitFor hresidual).trans ?_
        congr 1
        exact hcode.1.workflowId.trans hw.symm
      refine ⟨{ r with code := .stepping (c' x.result) }, c' x.result, ?_, rfl, ?_⟩
      · rw [Sys.getElem?_setThread (s := s.publish t x) hth, if_pos rfl]
      · rw [hres]
        exact hrefused
    | _ => rw [hc] at hwait; cases hwait

/-- the next statement of such a thread -/
theorem read_afterRefusal {t : Nat} {r : Run Val} {c : Engine Val Val} {w : String} {wait : Wait}
    (hth : s.threads[t]? = some ⟨.run r, none, true⟩) (hcode : r.code = .stepping c)
    (hrun : c.run = wait.afterRefusal d.toRuntime w) {answer : EventRecord}
    (hanswer : (s.history w).find? wait.isAnswer = some answer) :
    ∃ s', s.step d (.read t) = some s' ∧ s'.threads[t]? = some ⟨.run { r with
      code := .stepping (ExceptT.mk (.pure (wait.outcome d.toRuntime answer))) }, none, true⟩ := by
  let k : List EventRecord → Resumption (Call Val) Call.Reply (Except PyExc Val) := fun history =>
    match history.find? wait.isAnswer with
    | some answer => .pure (wait.outcome d.toRuntime answer)
    | none => .pure (.error (.workflowSuspended wait.suspensionText))
  have hk : k (s.history w) = .pure (wait.outcome d.toRuntime answer) := by
    show (match (s.history w).find? wait.isAnswer with
      | some answer => _
      | none => _) = _
    rw [hanswer]
  have hnext : (Task.run r).next? d t = some ⟨.loadEventHistory w,
      fun history => .run { r with code := .stepping (k history) }⟩ := by
    show Option.map _ r.next? = _
    unfold Run.next?
    rw [hcode]
    show Option.map _ (Option.map _ c.run.pending?) = _
    rw [hrun]
    rfl
  have hthread : s.thread? t = some ⟨.run r, none, true⟩ := by
    simp [Sys.thread?, hth]
  refine ⟨(s.noteLoad (.loadEventHistory w)).setThread t
    ⟨.run { r with code := .stepping (k (s.history w)) }, none, true⟩, ?_, ?_⟩
  · simp only [Sys.step, hthread, hnext]
    rfl
  · rw [Sys.getElem?_setThread (s := s.noteLoad _) (by rw [Sys.noteLoad_threads]; exact hth),
      if_pos rfl]
    show some (Thread.mk (Task.run { r with code := .stepping (k (s.history w)) }) none true) = _
    rw [hk]
    rfl

/-- **No wakeup is lost.**  A row that is WAITING has no answer in its log to a wait that marked it;
and a wait whose mark is refused, whatever happens before its next statement, reads a log with an
answer and delivers it. -/
theorem no_lost_wakeup (hs : Reachable d (fun _ l => l.plainSignal) s) :
    (∀ w row, s.row? w = some row → row.status = .waiting →
      ∀ wait ∈ s.waits w, ∀ e ∈ s.history w, wait.isAnswer e = false)
    ∧ ∀ t task x w wait s', s.threads[t]? = some ⟨task, some x, true⟩ →
      x.txn = .markWorkflowWaiting w wait → x.result = .ok false →
      s.step d (.commit t) = some s' →
      ∀ s'', Reach (Sys.step d) (fun _ l => l.plainSignal) s' s'' →
        s''.threads[t]? = s'.threads[t]? →
        ∃ answer r s₃, (s''.history w).find? wait.isAnswer = some answer
          ∧ s''.step d (.read t) = some s₃ ∧ s₃.threads[t]? = some ⟨.run r, none, true⟩
          ∧ r.code = .stepping (ExceptT.mk (.pure (wait.outcome d.toRuntime answer))) := by
  refine ⟨waiting_ok hs, fun t task x w wait s' hth htxn hres hl s'' hreach hsame => ?_⟩
  obtain ⟨r, c, hth', hcode, hrun⟩ := afterRefusal_of_commit hs hth htxn hres (Step.of_step hl)
  have hs' : Reachable d (fun _ l => l.plainSignal = true) s' := .step _ hs rfl hl
  -- the answer that the check has seen is still in the log
  obtain ⟨e, he, hmatch⟩ := answered_of_refused hs (Sys.tx?_eq hth) htxn hres
  have hev : e ∈ s''.events := by
    refine Reach.invariant (I := fun s : Sys Val => e ∈ s.events) ?_
      (fun s l s' h _ hl => (Step.of_step hl).mem_events h) hreach
    exact (Step.of_step hl).mem_events he
  have hsignal := signal_ok (fun _ _ => id) (hs'.trans hreach) hev
  obtain ⟨hw, hans⟩ := isAnswer_of_answerMatches (entry_ok (hs'.trans hreach) hev) hsignal.sent hmatch
  obtain ⟨answer, hanswer⟩ : ∃ answer, (s''.history w).find? wait.isAnswer = some answer := by
    rw [← Option.isSome_iff_exists, List.find?_isSome]
    exact ⟨e, Sys.mem_history.mpr ⟨hev, hw⟩, hans⟩
  obtain ⟨s₃, hread, hth₃⟩ := read_afterRefusal (hsame.trans hth') hcode hrun hanswer
  exact ⟨answer, _, s₃, hanswer, hread, hth₃, rfl⟩

end

/-! ## a wait before and in the race -/

def waits : Deployment Json :=
  .plain fun _ => some fun _ delivered =>
    match delivered with
    | [.ok payload] => .ret (.ok payload)
    | [.error error] => .raise error
    | _ => .waitForSignal "go"

def writesMarker : List (Label Json) :=
  [.request (.startWorkflow .w "n" (.obj []))] ++ transact 0 3
    ++ [.claim "A" (newRow "w" "n" none 0)] ++ transact 1 2
    ++ [.read 1, .advance 1] ++ transact 1 2 ++ [.read 1]

def racesSignal : List (Label Json) :=
  [.request (.sendSignal "w" "go" (.int 5)), .read 2] ++ transact 2 4
    ++ [.begin 1, .execute 1, .execute 1]

def Sys.isRefused (s : Sys Json) : Bool :=
  match s.thread? 1 with
  | some ⟨_, some x, _⟩ => match x.txn, x.result with
    | .markWorkflowWaiting w wait, .ok false => w == "w" && wait == .signal "go"
    | _, _ => false
  | _ => false

theorem Sys.isRefused_spec {s : Sys Json} (h : s.isRefused = true) : ∃ task x,
    s.threads[1]? = some ⟨task, some x, true⟩ ∧ x.txn = .markWorkflowWaiting "w" (.signal "go")
      ∧ x.result = .ok false := by
  unfold Sys.isRefused at h
  split at h
  · rename_i task x alive hth
    obtain ⟨hth, rfl⟩ := Sys.thread?_eq_some hth
    split at h
    · rename_i w wait htxn hres
      obtain ⟨rfl, rfl⟩ : w = "w" ∧ wait = .signal "go" := by simpa using h
      exact ⟨task, x, hth, htxn, hres⟩
    · cases h
  · cases h

/-- without the signal the row waits; with it the wait goes on -/
theorem no_lost_wakeup_once :
    (∃ s : Sys Json, s.hasStatus "w" .waiting = true
      ∧ ∀ e ∈ s.history "w", (Wait.signal "go").isAnswer e = false)
    ∧ ∃ (s s' : Sys Json) (answer : EventRecord) (r : Run Json),
      (s.history "w").find? (Wait.signal "go").isAnswer = some answer
        ∧ s.step waits (.read 1) = some s' ∧ s'.threads[1]? = some ⟨.run r, none, true⟩ := by
  have hwaits : (follow (Sys.step waits) (fun _ l => l.plainSignal) Sys.initial
      (writesMarker ++ transact 1 3)).any (fun s => s.hasStatus "w" .waiting
        && s.waits "w" == [.signal "go"]) = true := by
    decide +kernel
  have hraces : (follow (Sys.step waits) (fun _ l => l.plainSignal) Sys.initial
      (writesMarker ++ racesSignal)).any (fun s => s.isRefused
        && (s.step waits (.commit 1)).isSome) = true := by
    decide +kernel
  constructor
  · obtain ⟨s, hs, h⟩ := Reach.exists_of_follow _ hwaits
    obtain ⟨hstatus, hw⟩ := Bool.and_eq_true_iff.mp h
    obtain ⟨row, hrow, hrow'⟩ := (Option.any_eq_true _ _).mp hstatus
    refine ⟨s, hstatus, (no_lost_wakeup hs).1 "w" row hrow (beq_iff_eq.mp hrow') _ ?_⟩
    rw [beq_iff_eq.mp hw]
    exact List.mem_singleton.mpr rfl
  · obtain ⟨s, hs, h⟩ := Reach.exists_of_follow _ hraces
    obtain ⟨hrefused, hcommit⟩ := Bool.and_eq_true_iff.mp h
    obtain ⟨task, x, hth, htxn, hres⟩ := Sys.isRefused_spec hrefused
    obtain ⟨s', hs'⟩ := Option.isSome_iff_exists.mp hcommit
    obtain ⟨answer, r, s₃, hanswer, hread, hth₃, -⟩ :=
      (no_lost_wakeup hs).2 1 task x "w" _ s' hth htxn hres hs' s' .start rfl
    exact ⟨s', s₃, answer, r, hanswer, hread, hth₃⟩

end TemporalLight
