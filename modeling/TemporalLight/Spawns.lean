import TemporalLight.Programs
import TemporalLight.Starts

/-!
# What the log of a parent tells of its children

* `loaded_before`         what a run has read was committed before
* `spawned_ok`            a child has the name and the input that its CHILD_STARTED event tells
* `completes_ok`          a run completes its workflow with what its function has returned
* `completed_by`          so a recorded result is that of a run of the program
-/

namespace TemporalLight
open Runs Resumption

section
variable {Val : Type} {d : Deployment Val} {s s' : Sys Val} {ok : Sys Val → Label Val → Prop}

/-! ## histories -/

theorem loaded_before (hs : Reachable d ok s) {l : Label Val} (hstep : Step d s l s') {w : String}
    {history : List EventRecord} (hl : (w, history) ∈ s'.loaded) {e : EventRecord}
    (he : e ∈ history) : e ∈ s.history w := by
  have hold (hl : (w, history) ∈ s.loaded) : e ∈ s.history w := mem_events_of_loaded hs hl he
  cases hstep with
  | @read t task q k reply hth hq hreply =>
    replace hl : (w, history) ∈ (s.noteLoad q).loaded := hl
    cases q with
    | loadEventHistory w' =>
      rcases List.mem_cons.mp hl with heq | hl
      · obtain ⟨rfl, rfl⟩ := Prod.mk.inj heq
        exact he
      · exact hold hl
    | _ => exact hold hl
  | _ => exact hold hl

/-! ## children -/

/-- the child `c` has been created as the event `e` tells -/
def Sys.Spawned (s : Sys Val) (e : EventRecord) (c : String) : Prop :=
  ∃ name input, e.payload.get? "workflow_name" = some (.str name)
    ∧ e.payload.get? "input" = some input ∧ (∃ row, s.row? c = some row ∧ row.name = name)
    ∧ ∃ e₀ ∈ s.history c, e₀.toEntry.isStarted = true ∧ e₀.payload.get? "input" = some input

theorem Sys.Spawned.step {l : Label Val} (hstep : Step d s l s') {e : EventRecord} {c : String}
    (h : s.Spawned e c) : s'.Spawned e c := by
  obtain ⟨name, input, hname, hinput, ⟨row, hrow, hrname⟩, e₀, he₀, hk, hinput₀⟩ := h
  obtain ⟨row', hrow', hrname'⟩ := hstep.row?_name hrow
  exact ⟨name, input, hname, hinput, ⟨row', hrow', hrname'.trans hrname⟩, e₀,
    hstep.mem_history he₀, hk, hinput₀⟩

theorem row_of_created (hs : Reachable d ok s) {t : Nat} {x : Tx} (hx : s.tx? t = some x)
    {c name : String} {parentId : Option String}
    (hc : x.created.map rowKey = [(c, name, parentId)]) :
    ∃ row, (s.publish t x).row? c = some row ∧ row.name = name := by
  obtain ⟨row, hrow, hkey⟩ := List.map_eq_singleton_iff.mp hc
  obtain ⟨hid, hname, -⟩ : row.workflowId = c ∧ row.name = name ∧ row.parentId = parentId := by
    simpa [rowKey] using hkey
  have hnone : s.row? c = none :=
    hid ▸ (keys_ok hs).fresh t x hx row (hrow ▸ List.mem_singleton_self row)
  refine ⟨rowAfter c x.updates row, ?_, (rowAfter_name c x.updates row).trans hname⟩
  rw [Sys.row?_publish, hnone, Option.none_or, hrow]
  simp [Rows.lookup, hid]

/-- a commit that writes a CHILD_STARTED event creates the child -/
theorem spawned_of_commit (hs : Reachable d ok s) {t : Nat} {task : Task Val} {x : Tx}
    {alive : Bool} (hth : s.threads[t]? = some ⟨task, some x, alive⟩) (hrest : x.rest = [])
    {e : EventRecord} (he : e ∈ x.inserted) {i : Nat} (hk : e.toEntry.isChildStarted i = true) :
    (s.publish t x).Spawned e (childWorkflowId e.workflowId i) := by
  have hx := Sys.tx?_eq hth
  obtain ⟨hty, hi⟩ := Bool.and_eq_true_iff.mp hk
  replace hty := beq_iff_eq.mp hty
  replace hi := beq_iff_eq.mp hi
  have hisStep : e.toEntry.isStep = true := by
    rw [Entry.isStep, hi]
    exact decide_eq_true (Int.natCast_nonneg i)
  have hissues := issues_of_thread hs hth rfl
  obtain ⟨r, rfl, hr, ⟨payload, htxn⟩ | ⟨c, name, input, j, hj, -, htxn⟩⟩ :=
    hissues.step_of_entry ((tx_ok hs hx).mem_entries he) hisStep
  · have hrun : x.txn.OfRun r.workflowId r.wait? s.loaded := hissues
    rw [htxn, hty] at hrun
    rcases hrun.2 with ⟨-, h | h | h | h⟩ | ⟨-, h, -⟩ <;> cases h
  · have hrun : x.txn.OfRun r.workflowId r.wait? s.loaded := hissues
    rw [htxn] at hrun
    obtain rfl : j = i := by
      rw [hj] at hi
      exact_mod_cast hi
    obtain rfl : c = childWorkflowId e.workflowId j := hrun.2.trans (by rw [hr])
    rcases committed hs hx hrest with ⟨hins, -⟩ | ⟨hins, hcre, hpay⟩
    · rw [hins] at he
      cases he
    · rw [htxn] at hins hcre hpay
      cases input with
      | error error =>
        refine (hpay (childWorkflowId e.workflowId j) (-1) "workflow" .started error ?_).elim
        simp [Txn.statements, insertInto, Except.map]
      | ok input =>
        obtain ⟨row, hrow, hname⟩ := row_of_created hs hx hcre
        have hentry : e.toEntry ∈ x.inserted.map EventRecord.toEntry := List.mem_map_of_mem he
        rw [hins] at hentry
        have hpayload : e.payload = .obj [("child_id", .str (childWorkflowId e.workflowId j)),
            ("workflow_name", .str name), ("input", input)] := by
          rcases List.mem_cons.mp hentry with heq | hentry
          · rw [heq] at hty
            cases hty
          · exact congrArg Entry.payload (List.mem_singleton.mp hentry)
        have hstarted : (⟨childWorkflowId e.workflowId j, -1, "workflow", .started,
            .obj [("input", input), ("parent", .obj [("workflow_id", .str e.workflowId),
              ("child_id", .str (childWorkflowId e.workflowId j))])]⟩ : Entry)
            ∈ x.inserted.map EventRecord.toEntry := by
          rw [hins]
          exact List.mem_cons_self
        obtain ⟨e₀, he₀, heq⟩ := List.mem_map.mp hstarted
        refine ⟨name, input, ?_, ?_, ⟨row, hrow, hname⟩, e₀, ?_, ?_, ?_⟩
        · rw [hpayload]
          rfl
        · rw [hpayload]
          rfl
        · refine Sys.mem_history.mpr ⟨mem_events_publish.mpr (.inr he₀), ?_⟩
          exact congrArg Entry.workflowId heq
        · rw [heq]
          rfl
        · rw [show e₀.payload = _ from congrArg Entry.payload heq]
          rfl

/-- **A child has the name and the input that the log of its parent tells.** -/
theorem spawned_ok (hs : Reachable d ok s) {p : String} {i : Nat} {e : EventRecord}
    (he : e ∈ s.history p) (hk : e.toEntry.isChildStarted i = true) :
    s.Spawned e (childWorkflowId p i) := by
  refine Reach.invariant_of_reach (I := fun s : Sys Val => ∀ p i, ∀ e ∈ s.history p,
    e.toEntry.isChildStarted i = true → s.Spawned e (childWorkflowId p i)) (by simp [Sys.initial])
    ?_ hs p i e he hk
  intro s l s' hs ih _ hl p i e he hk
  have hstep := Step.of_step hl
  rcases hstep.tables_cases with htab | ⟨t, task, x, txn, k, rfl, hth, hrest, -, rfl⟩
  · rw [htab.history] at he
    exact (ih p i e he hk).step hstep
  · obtain ⟨hmem, rfl⟩ := Sys.mem_history.mp he
    replace hmem : e ∈ (s.publish t x).events := hmem
    rcases mem_events_publish.mp hmem with hmem | hmem
    · exact (ih e.workflowId i e (Sys.mem_history.mpr ⟨hmem, rfl⟩) hk).step hstep
    · exact spawned_of_commit hs hth hrest hmem hk

theorem Sys.Spawned.program (hs : Reachable d ok s) {e : EventRecord} {c name : String}
    {input : Json} (h : s.Spawned e c) (hname : e.payload.get? "workflow_name" = some (.str name))
    (hinput : e.payload.get? "input" = some input)
    (registry : String → Option (Json → Program Val)) :
    s.program? registry c = (registry name).map fun f => f input := by
  obtain ⟨name', input', hname', hinput', ⟨row, hrow, hrname⟩, e₀, he₀, hk, hinput₀⟩ := h
  obtain rfl := Json.str.inj (Option.some.inj (hname.symm.trans hname'))
  obtain rfl := Option.some.inj (hinput.symm.trans hinput')
  rw [Sys.program?, hrow, Option.bind_some, input_of_started hs he₀ hk, Option.bind_some, hrname,
    hinput₀]
  rfl

/-! ## programs -/

theorem program?_step (hs : Reachable d ok s) {l : Label Val} (hl : ok s l)
    (hstep : s.step d l = some s') {w : String} (hrow : s.HasRow w)
    (registry : String → Option (Json → Program Val)) :
    s'.program? registry w = s.program? registry w := by
  have hs' : Reachable d ok s' := .step l hs hl hstep
  have hstep := Step.of_step hstep
  obtain ⟨row, hrow⟩ := Option.isSome_iff_exists.mp hrow
  obtain ⟨row', hrow', hname⟩ := hstep.row?_name hrow
  obtain ⟨e, he, hk⟩ := started_of_row hs (Option.isSome_iff_exists.mpr ⟨row, hrow⟩)
  rw [Sys.program?, Sys.program?, hrow, hrow', input_of_started hs he hk,
    input_of_started hs' (hstep.mem_history he) hk, Option.bind_some, Option.bind_some,
    Option.bind_some, Option.bind_some, hname]

/-! ## results -/

def Action.returned? : Action Val → Option (Except PyExc Json)
  | .ret result => some result
  | _ => none

/-- what the function of a run that has come to its end has returned -/
def Run.returned? (r : Run Val) : Option (Except PyExc Json) :=
  match r.code with
  | .ending _ => (r.program r.delivered).returned?
  | .ended => (r.program r.delivered).returned?
  | _ => none

/-- the call completes the workflow with this result, if at all -/
def Call.Completes (result? : Option (Except PyExc Json)) : Call Val → Prop
  | .transaction (.completeWorkflow _ result _) => result? = some result
  | _ => True

theorem Call.Writes.completes {j : Nat} {types : List EventType} {q : Call Val}
    (h : q.Writes (some j) types) (result? : Option (Except PyExc Json)) :
    q.Completes result? := by
  cases q with
  | transaction txn =>
    cases txn with
    | completeWorkflow w result parentInfo => cases h
    | _ => trivial
  | _ => trivial

theorem completes_startRun (registry : String → Option (Json → Program Val))
    (record : WorkflowRecord) : (startRun registry record).run.Asks (Call.Completes none) := by
  unfold startRun
  refine Asks.run_bind ⟨trivial, fun _ => trivial⟩ fun history => ?_
  dsimp only
  split
  · exact (asks_call (.failWorkflow _ _ _) trivial).run_bind fun _ => trivial
  · split
    · exact (asks_call (.failWorkflow _ _ _) trivial).run_bind fun _ => trivial
    · trivial

theorem completes_finishRun {rt : Runtime Val} {ctx : WorkflowContext} (action : Action Val) :
    (finishRun rt ctx action).run.Asks (Call.Completes action.returned?) := by
  cases action with
  | ret result =>
    refine Asks.run_bind ?_ fun _ => trivial
    exact asks_call (P := Call.Completes (some result)) (.completeWorkflow _ _ _) rfl
  | raise error =>
    unfold finishRun
    split
    · trivial
    · split
      · refine (asks_result _).run_bind fun message => ?_
        exact (asks_call (.failWorkflow _ _ _) trivial).run_bind fun _ => trivial
      · trivial
    · trivial
    · trivial
  | _ => trivial

theorem Run.next?_returned {r : Run Val} {n : (q : Call Val) × (q.Reply → Run Val)}
    (hn : r.next? = some n) (reply : n.1.Reply) : (n.2 reply).returned? = r.returned? := by
  unfold Run.next? at hn
  cases hc : r.code with
  | ended =>
    rw [hc] at hn
    cases hn
  | _ =>
    rw [hc] at hn
    obtain ⟨m, -, rfl⟩ := Option.map_eq_some_iff.mp hn
    rw [Run.returned?, Run.returned?, hc]

/-- **A run completes its workflow with what its function has returned.** -/
theorem completes_ok (hs : Reachable d ok s) {t : Nat} {r : Run Val} (hr : s.run? t = some r) :
    r.Puts (Call.Completes r.returned?) := by
  obtain ⟨past, htrace⟩ := hs.exists_trace
  refine run_invariant (I := fun _ _ _ r => r.Puts (Call.Completes r.returned?)) ?_ ?_ ?_ ?_ ?_
    htrace hr
  · intro t r hr
    rw [Sys.initial_run?] at hr
    cases hr
  · intro _ _ _ _ _ _ _ _ _ _ _ _ _ _
    exact completes_startRun _ _
  · intro _ _ _ _ _ _ _ _ _ _ _ h
    exact h
  · intro _ _ _ _ _ r _ n reply _ _ _ _ hn _ h
    rw [Run.next?_returned hn]
    exact (h.next hn).2 reply
  · intro _ _ _ _ r r' _ _ _ _ hadv _
    have hresume (r : Run Val) :
        (r.resume d.toRuntime).Puts (Call.Completes (r.resume d.toRuntime).returned?) := by
      unfold Run.resume
      dsimp only
      split
      · exact completes_finishRun _
      · exact (writes_executeStep _).mono fun _ h => h.completes none
    rcases Run.advance_cases hadv with ⟨_, _, _, -, -, rfl⟩ | ⟨_, _, -, -, rfl⟩ | ⟨rfl, -⟩
    · exact hresume _
    · exact hresume _
    · trivial

/-- a function that has returned is not called again -/
theorem returned_step {l : Label Val} (hstep : Step d s l s') {t : Nat} {r : Run Val}
    {result : Except PyExc Json} (hr : s.run? t = some r) (h : r.returned? = some result) :
    ∃ r', s'.run? t = some r' ∧ r'.workflowId = r.workflowId ∧ r'.program = r.program
      ∧ r'.delivered = r.delivered ∧ r'.returned? = some result := by
  obtain ⟨tx, alive, hth⟩ := Sys.thread_of_run? hr
  obtain ⟨r', tx', alive', hth', hw, -⟩ := Sys.Runs.step hstep ⟨r, tx, alive, hth, rfl, rfl⟩
  have hr' := Sys.run?_eq hth'
  refine ⟨r', hr', hw, ?_⟩
  rcases run_cases hstep hr' with hsame | ⟨_, _, _, _, hth₀, -, -⟩ | ⟨r₀, _, n, reply, hth₀, hn, rfl, -⟩
      | ⟨r₀, -, hth₀, hadv⟩
  · obtain rfl := Option.some.inj (hr.symm.trans hsame)
    exact ⟨rfl, rfl, h⟩
  · rw [hth] at hth₀
    cases (Thread.mk.inj (Option.some.inj hth₀)).1
  · obtain rfl := Option.some.inj (hr.symm.trans (Sys.run?_eq hth₀))
    refine ⟨?_, ?_, (Run.next?_returned hn reply).trans h⟩ <;>
    · obtain ⟨code, hcode⟩ := Run.next?_code hn reply
      rw [hcode]
  · obtain rfl := Option.some.inj (hr.symm.trans (Sys.run?_eq hth₀))
    unfold Run.returned? at h
    rcases Run.advance_cases hadv with ⟨_, _, _, hc, -, -⟩ | ⟨_, _, hc, -, -⟩
        | ⟨rfl, ⟨_, _, hc, -, -⟩ | ⟨_, _, hc, -⟩⟩
    · rw [hc] at h
      cases h
    · rw [hc] at h
      cases h
    · rw [hc] at h
      cases h
    · rw [hc] at h
      exact ⟨rfl, rfl, h⟩

theorem Action.eq_ret {action : Action Val} {result : Except PyExc Json}
    (h : action.returned? = some result) : action = .ret result := by
  cases action with
  | ret result' => rw [Option.some.inj h]
  | _ => cases h

theorem Run.ret_of_returned {r : Run Val} {result : Except PyExc Json}
    (h : r.returned? = some result) : r.program r.delivered = .ret result := by
  unfold Run.returned? at h
  split at h
  · exact Action.eq_ret h
  · exact Action.eq_ret h
  · cases h

/-- what a run that is about to complete its workflow has started with -/
theorem started_of_returned (hs : Reachable d ok s) {t : Nat} {r : Run Val} (hr : s.run? t = some r)
    {result : Except PyExc Json} (h : r.returned? = some result)
    {n : (q : Call Val) × (q.Reply → Run Val)} (hn : r.next? = some n) :
    Run.Started (d.workflowRegistry t) s.loaded r.record r.program r.context := by
  obtain ⟨tx, alive, hth⟩ := Sys.thread_of_run? hr
  have hcode := (task_ok hs hth).code
  unfold Run.CodeOk at hcode
  unfold Run.returned? at h
  unfold Run.next? at hn
  cases hc : r.code with
  | ending c =>
    rw [hc] at hcode
    exact hcode.1
  | ended =>
    rw [hc] at hn
    cases hn
  | _ =>
    rw [hc] at h
    cases h

/-- **A workflow is completed by a run of its program, with what the function has returned.** -/
theorem completed_by (hs : Reachable d ok s) {w : String} {e : EventRecord} (he : e ∈ s.history w)
    (hty : e.eventType = .workflowCompleted) :
    ∃ t r result, s.run? t = some r ∧ r.workflowId = w ∧ r.returned? = some (.ok result)
      ∧ s.program? (d.workflowRegistry t) w = some r.program
      ∧ e.payload = .obj [("result", result)] := by
  refine Reach.invariant_of_reach (I := fun s => ∀ e ∈ s.history w,
    e.eventType = .workflowCompleted → ∃ t r result, s.run? t = some r ∧ r.workflowId = w
      ∧ r.returned? = some (.ok result) ∧ s.program? (d.workflowRegistry t) w = some r.program
      ∧ e.payload = .obj [("result", result)]) (by simp [Sys.initial]) ?_ hs e he hty
  intro s l s' hs ih hl hstep e he hty
  have hold (he : e ∈ s.history w) : ∃ t r result, s'.run? t = some r ∧ r.workflowId = w
      ∧ r.returned? = some (.ok result) ∧ s'.program? (d.workflowRegistry t) w = some r.program
      ∧ e.payload = .obj [("result", result)] := by
    obtain ⟨hmem, hw⟩ := Sys.mem_history.mp he
    obtain ⟨t, r, result, hr, hrw, hret, hprogram, hpayload⟩ := ih e he hty
    obtain ⟨r', hr', hrw', hsame, -, hret'⟩ := returned_step (Step.of_step hstep) hr hret
    refine ⟨t, r', result, hr', hrw'.trans hrw, hret', ?_, hpayload⟩
    rw [program?_step hs hl hstep (hw ▸ row_of_event hs hmem), hsame]
    exact hprogram
  rcases (Step.of_step hstep).tables_cases with htab | ⟨t, task, x, txn, k, rfl, hth, -, -, hs'⟩
  · rw [htab.history] at he
    exact hold he
  obtain ⟨hmem, hw⟩ := Sys.mem_history.mp he
  rw [hs'] at hmem
  replace hmem : e ∈ (s.publish t x).events := hmem
  rcases mem_events_publish.mp hmem with hmem | hmem
  · exact hold (Sys.mem_history.mpr ⟨hmem, hw⟩)
  obtain ⟨r, result, parentInfo, rfl, hr, htxn, hpayload⟩ :=
    (issues_of_thread hs hth rfl).completes ((tx_ok hs (Sys.tx?_eq hth)).mem_entries hmem) hty
  have hrun := Sys.run?_eq hth
  obtain ⟨k₀, hn, -, -⟩ := commit_run hs hth (Step.of_step hstep)
  have hret : r.returned? = some (.ok result) := by
    have hcall := ((completes_ok hs hrun).next hn).1
    rw [htxn] at hcall
    exact hcall
  obtain ⟨r', hr', hrw', hsame, -, hret'⟩ := returned_step (Step.of_step hstep) hrun hret
  refine ⟨t, r', result, hr', hrw'.trans (hr.trans hw), hret', ?_, hpayload⟩
  have hprogram := program_of_run hs (started_of_returned hs hrun hret hn) hrun
    (.step _ .start hl hstep)
  rw [hr, hw] at hprogram
  rw [hsame]
  exact hprogram

/-- **A workflow that is completed has a program.** -/
theorem program_of_completed (hd : ∀ t, d.workflowRegistry t = d.workflowRegistry 0)
    (hs : Reachable d ok s) {w : String} {e : EventRecord} (he : e ∈ s.history w)
    (hty : e.eventType = .workflowCompleted) :
    ∃ P, s.program? (d.workflowRegistry 0) w = some P := by
  obtain ⟨t, r, -, -, -, -, hprogram, -⟩ := completed_by hs he hty
  exact ⟨r.program, hd t ▸ hprogram⟩

end

end TemporalLight
