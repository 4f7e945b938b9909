import TemporalLight.Replays

/-!
# The program of a workflow

A workflow keeps its name, and its log has one STARTED event; so where all workers run the same
code, all runs of the workflow execute one program (`program_of_run`).
-/

namespace TemporalLight
open Runs Resumption

section
variable {Val : Type} {d : Deployment Val} {s s' : Sys Val} {ok : Sys Val → Label Val → Prop}

/-! ## names -/

theorem Step.row?_name {l : Label Val} (h : Step d s l s') {w : String} {row : WorkflowRecord}
    (hrow : s.row? w = some row) : ∃ row', s'.row? w = some row' ∧ row'.name = row.name := by
  rcases h.tables_cases with htab | ⟨t, task, x, txn, k, -, -, -, -, rfl⟩
  · exact ⟨row, htab.row?.trans hrow, rfl⟩
  · refine ⟨rowAfter w x.updates row, ?_, rowAfter_name w x.updates row⟩
    rw [Sys.setThread_row?, Sys.row?_publish, hrow]
    rfl

theorem row_of_reach (h : Reach (Sys.step d) ok s s') {w : String} {row : WorkflowRecord}
    (hrow : s.row? w = some row) : ∃ row', s'.row? w = some row' ∧ row'.name = row.name := by
  induction h with
  | start => exact ⟨row, hrow, rfl⟩
  | step l _ _ hstep ih =>
    obtain ⟨row₁, hrow₁, hname₁⟩ := ih
    obtain ⟨row₂, hrow₂, hname₂⟩ := (Step.of_step hstep).row?_name hrow₁
    exact ⟨row₂, hrow₂, hname₂.trans hname₁⟩

theorem mem_history_of_reach (h : Reach (Sys.step d) ok s s') {w : String} {e : EventRecord}
    (he : e ∈ s.history w) : e ∈ s'.history w := by
  induction h with
  | start => exact he
  | step l _ _ hstep ih => exact (Step.of_step hstep).mem_history ih

theorem row_of_claim (hs : Reachable d ok s) {t : Nat} {l : Label Val} {worker : String}
    {row : WorkflowRecord} {tx : Option Tx}
    {reply : (Call.transaction (.claimNextWorkflow worker row) : Call Val).Reply}
    (hth : s.threads[t]? = some ⟨.claiming worker row, tx, true⟩)
    (hans : Answers s t l (.transaction (.claimNextWorkflow worker row)) reply s') :
    s.row? row.workflowId = some row := by
  cases hans with
  | @commit task x txn k hth' hrest =>
    rw [hth] at hth'
    obtain ⟨rfl, rfl, -⟩ := Thread.mk.inj (Option.some.inj hth')
    obtain ⟨-, k', hk'⟩ := txn_of_thread hs hth rfl
    have htxn : x.txn = .claimNextWorkflow worker row :=
      (Call.transaction.inj (Sigma.mk.inj (Option.some.inj hk')).1).symm
    have hx := Sys.tx?_eq hth
    exact (claimed_row hs hx hrest htxn (claim_ok hs hx htxn)).1
  | read hreply => cases hreply

/-- the row of a run has the name that the run has read -/
theorem name_of_run (hs : Reachable d ok s) {t : Nat} {r : Run Val} (hr : s.run? t = some r) :
    ∃ row, s.row? r.workflowId = some row ∧ row.name = r.record.name := by
  obtain ⟨past, htrace⟩ := hs.exists_trace
  have hkeep {s s' : Sys Val} {l : Label Val} {record : WorkflowRecord} (hstep : Step d s l s')
      (h : ∃ row, s.row? record.workflowId = some row ∧ row.name = record.name) :
      ∃ row, s'.row? record.workflowId = some row ∧ row.name = record.name := by
    obtain ⟨row, hrow, hname⟩ := h
    obtain ⟨row', hrow', hname'⟩ := hstep.row?_name hrow
    exact ⟨row', hrow', hname'.trans hname⟩
  refine run_invariant (I := fun _ s _ r => ∃ row, s.row? r.record.workflowId = some row
    ∧ row.name = r.record.name) ?_ ?_ ?_ ?_ ?_ htrace hr
  · intro t r hr
    rw [Sys.initial_run?] at hr
    cases hr
  · intro _ _ _ _ _ _ row _ _ htrace _ hstep hth hans
    exact hkeep hstep ⟨row, row_of_claim htrace.reach hth hans, rfl⟩
  · intro _ _ _ _ _ _ _ _ hstep _ _ h
    exact hkeep hstep h
  · intro _ _ _ _ _ _ _ _ reply _ _ hstep _ hn _ h
    rw [(Run.next?_record hn reply).1]
    exact hkeep hstep h
  · intro _ _ _ _ _ _ _ _ hstep _ hadv h
    rw [(Run.advance_record hadv).1]
    exact hkeep hstep h

/-! ## programs -/

/-- the input in the STARTED event of `w` -/
def Sys.input? (s : Sys Val) (w : String) : Option Json :=
  ((s.history w).find? fun e => e.toEntry.isStarted).map fun e =>
    (e.payload.get? "input").getD (.obj [])

/-- the program of `w`, by its name and its input -/
def Sys.program? (s : Sys Val) (registry : String → Option (Json → Program Val)) (w : String) :
    Option (Program Val) :=
  (s.row? w).bind fun row => (s.input? w).bind fun input =>
    (registry row.name).map fun f => f input

theorem input_of_started (hs : Reachable d ok s) {w : String} {e : EventRecord}
    (he : e ∈ s.history w) (hk : e.toEntry.isStarted = true) :
    s.input? w = some ((e.payload.get? "input").getD (.obj [])) := by
  have hone := countP_started hs w
  obtain ⟨he₀, hw⟩ := Sys.mem_history.mp he
  have hrow : (s.row? w).isSome = true := hw ▸ row_of_event hs he₀
  rw [hrow, if_pos rfl] at hone
  obtain ⟨e₁, hfilter, -, -⟩ := filter_of_countP hone
  have hmem : e ∈ (s.history w).filter fun e => e.toEntry.isStarted := List.mem_filter.mpr ⟨he, hk⟩
  rw [hfilter] at hmem
  obtain rfl := List.mem_singleton.mp hmem
  rw [Sys.input?, ← List.head?_filter, hfilter]
  rfl

theorem started_of_load (hs : Reachable d ok s) {t : Nat} {r : Run Val} (hr : s.run? t = some r)
    {c : Engine Val (Option (Program Val × WorkflowContext))} (hc : r.code = .starting c)
    {program : Program Val} {ctx : WorkflowContext}
    (hval : c.run.value? = some (.ok (some (program, ctx)))) :
    Run.Started (d.workflowRegistry t) s.loaded r.record program ctx := by
  obtain ⟨tx, alive, hth⟩ := Sys.thread_of_run? hr
  have hcode := (task_ok hs hth).code
  unfold Run.CodeOk at hcode
  rw [hc] at hcode
  obtain ⟨-, hwp⟩ := hcode
  rw [Resumption.value?_eq_some hval] at hwp
  exact (wp_value hwp program ctx rfl).1

/-- **All runs of a workflow execute one program.** -/
theorem program_of_run (hs : Reachable d ok s) {t : Nat} {r : Run Val} {program : Program Val}
    {ctx : WorkflowContext} {registry : String → Option (Json → Program Val)}
    (hstarted : Run.Started registry s.loaded r.record program ctx) (hr : s.run? t = some r)
    {s' : Sys Val} (h : Reach (Sys.step d) ok s s') :
    s'.program? registry r.workflowId = some program := by
  have hs' : Reachable d ok s' := hs.trans h
  obtain ⟨row, hrow, hname⟩ := name_of_run hs hr
  obtain ⟨row', hrow', hname'⟩ := row_of_reach h hrow
  obtain ⟨e, f, hfind, hf, hprogram⟩ := hstarted.program
  have he : e ∈ s'.history r.workflowId :=
    mem_history_of_reach h
      (mem_events_of_loaded hs hstarted.history (List.mem_of_find?_eq_some hfind))
  have hinput := input_of_started hs' he (by simpa [Entry.isStarted] using List.find?_some hfind)
  rw [Sys.program?, hrow', hinput, Option.bind_some, Option.bind_some, hname', hname, hf, hprogram]
  rfl

end

end TemporalLight
