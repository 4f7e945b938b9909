import TemporalLight.Terminal
import TemporalLight.Views

/-!
# Replay over whole runs of the system

Every run of a workflow goes through the log from its beginning, and writes only where the log
ends.

* `follow_ok`     the log is a sequence of blocks, and every run that goes on stands at a position
                  in it
* `values_ok`     what the awaits of a run have returned are the values of the first steps in the log
* `completed_ok`  a recorded result is that of the program after such values
* `body_ok`       the body of a step is invoked only as long as the step has no COMPLETED event
-/

namespace TemporalLight
open Runs Resumption

section
variable {Val : Type} {d : Deployment Val} {s s' : Sys Val} {ok : Sys Val → Label Val → Prop}
  {W : Replayable Val}

/-! ## a run on its way -/

/-- what `Ends` asks of the end of a computation -/
def Post {α : Type} (Q : α → View Val → Prop) : Except PyExc α → View Val → Prop
  | .ok a, V => Q a V
  | .error e, V => e.isSuspension = false → V.held

theorem Ends.post {α : Type} {c : Engine Val α} {Q : α → View Val → Prop} {V : View Val}
    (h : Ends W c Q V) : wp (rules W) c.run (Post Q) V := by
  refine wp_mono (fun r V' hr => ?_) h
  cases r with
  | ok a => exact hr
  | error e => exact hr

/-- `startRun` has put the run at the beginning of the log -/
def Begun (W : Replayable Val) (p? : Option (Program Val × WorkflowContext)) (V : View Val) : Prop :=
  ∀ program ctx, p? = some (program, ctx) →
    ctx.stepCounter = 0 ∧ ∃ rest, Position W ctx [] [] rest V ∧ Snapshot ctx [] rest

/-- the run keeps to the rules, and stands at a position of the log of `W` -/
def Run.Follows (W : Replayable Val) (r : Run Val) (V : View Val) : Prop :=
  r.Meets (rules W) (Post (Begun W)) (Post (Delivered W r.context r.values)) (fun _ => True) V

theorem Run.Follows.next {r : Run Val} {V V' : View Val} (h : r.Follows W V)
    {n : (q : Call Val) × (q.Reply → Run Val)} (hn : r.next? = some n) {reply : n.1.Reply}
    (hans : V.Answers W V' n.1 reply) : (n.2 reply).Follows W V' := by
  have hmeets := (Run.Meets.next h hn).2 reply V' hans
  obtain ⟨code, hcode⟩ := Run.next?_code hn reply
  rw [hcode] at hmeets ⊢
  exact hmeets

theorem Position.counted {ctx : WorkflowContext} {vs : List Val} {done rest : List Entry}
    {V : View Val} (h : Position W ctx vs done rest V) :
    Position W ctx.nextStepIndex.2 vs done rest V :=
  ⟨h.held, h.functional, h.workflowId, h.answers, h.steps, h.done, h.rest⟩

theorem Delivered.counted {ctx : WorkflowContext} {vs : List Val} {v : Val} {V : View Val}
    (h : Delivered W ctx vs v V) : Delivered W ctx.nextStepIndex.2 vs v V := by
  obtain ⟨done, rest, hpos, hsnap⟩ := h
  exact ⟨done, rest, hpos.counted, hsnap⟩

/-- **A function that goes on from a position stays on its way.** -/
theorem follows_resume {r : Run Val} {u : List Val} {done rest : List Entry} {V : View Val}
    (hprogram : r.program = W.program) (hdelivered : r.delivered = u.map .ok)
    (hcount : r.context.stepCounter = u.length) (hpos : Position W r.context u done rest V)
    (hsnap : Snapshot r.context done rest) : (r.resume W.rt).Follows W V := by
  have haction : r.program r.delivered = W.program.next u := by rw [hprogram, hdelivered]; rfl
  have hvalues : r.values = u := by rw [Run.values, hdelivered, values_map_ok]
  unfold Run.resume
  dsimp only
  rw [haction]
  split
  · rename_i hend
    exact wp_mono (fun _ _ _ => trivial) (ends_finishRun hpos rfl hend)
  · rename_i hend
    have hstep := ends_executeStep hpos hsnap hcount (Bool.not_eq_true _ ▸ hend)
    have hstep' : Ends W (executeStep W.rt r.context (W.program.next u))
        (Delivered W r.context.nextStepIndex.2 r.values) V := by
      rw [hvalues]
      exact hstep.mono fun v V' => Delivered.counted
    exact hstep'.post

theorem follows_raise {r : Run Val} {delivered : List (Outcome Val)} {error : PyExc} {V : View Val}
    (hprogram : r.program = W.program) (hdelivered : r.delivered = delivered ++ [.error error])
    (hheld : error.isSuspension = false → V.held) : (r.resume W.rt).Follows W V := by
  have haction : r.program r.delivered = .raise error := by
    rw [hprogram, hdelivered]
    exact W.handler_free _ _
  unfold Run.resume
  dsimp only
  rw [haction]
  exact wp_mono (fun _ _ _ => trivial) (ends_finishRun_raise (W := W) hheld)

/-! ## the invariant -/

/-- the log of `W` is well formed, and every run of it that goes on is on its way -/
structure Sys.Follow (W : Replayable Val) (s : Sys Val) : Prop where
  log : (W.grammar (s.reads W.rt W.workflowId)).Rest [] (stepEntries (s.history W.workflowId))
  runs : ∀ t (r : Run Val) (tx : Option Tx), s.threads[t]? = some ⟨.run r, tx, true⟩ →
    r.workflowId = W.workflowId → r.isOver = false → r.Follows W (s.view W.rt W.workflowId t)

section
variable (hW : W.ReplayedIn d ok)
include hW

theorem not_isOver_of_tx (hs : Reachable d ok s) {t : Nat} {r : Run Val} {x : Tx}
    (hth : s.threads[t]? = some ⟨.run r, some x, true⟩) (hw : r.workflowId = W.workflowId) :
    r.isOver = false := by
  cases hover : r.isOver with
  | false => rfl
  | true =>
    obtain ⟨-, k, hk⟩ := txn_of_thread hs hth rfl
    obtain ⟨n, hn, hnk⟩ := Option.map_eq_some_iff.mp hk
    have hnow := now_of_isOver hW.stays hs (Sys.run?_eq hth) hw hover hn
    rw [congrArg Sigma.fst hnk] at hnow
    cases hnow

theorem log_step (hs : Reachable d ok s) (ih : s.Follow W) {l : Label Val} (hl : ok s l)
    (hstep : s.step d l = some s') :
    (W.grammar (s'.reads W.rt W.workflowId)).Rest [] (stepEntries (s'.history W.workflowId)) := by
  have hstep' := Step.of_step hstep
  have hmono
      (hsteps : stepEntries (s'.history W.workflowId) = stepEntries (s.history W.workflowId)) :
      (W.grammar (s'.reads W.rt W.workflowId)).Rest [] (stepEntries (s'.history W.workflowId)) := by
    rw [hsteps]
    exact Replayable.rest_mono (fun _ _ => Sys.reads_mono hstep'.loaded_subset) ih.log
  rcases hstep'.tables_cases with htab | ⟨t, task, x, txn, k, rfl, hth, hrest, hq, hs'⟩
  · exact hmono (by rw [htab.history])
  by_cases hrun : ∃ r, task = .run r ∧ r.workflowId = W.workflowId
  · obtain ⟨r, rfl, hw⟩ := hrun
    have hover := not_isOver_of_tx hW hs hth hw
    obtain ⟨k₀, hk₀, -, rfl⟩ := commit_run hs hth hstep'
    have hans := view_answers hW hs hl hstep hth hw hover hk₀
      (.commit (k := fun reply => .run (k₀ reply)) hth hrest)
    exact Run.Meets.keep (ih.runs t r _ hth hw hover) hk₀ hans ih.log
  · refine hmono ?_
    have hx := Sys.tx?_eq hth
    rw [hs', Sys.setThread_history, steps_publish hW.keeps hW.stays hs hx, List.filter_eq_nil_iff.mpr,
      List.append_nil]
    intro e he
    obtain ⟨e₀, he₀, rfl⟩ := List.mem_map.mp he
    rw [Bool.and_eq_true, beq_iff_eq]
    rintro ⟨hw, hisStep⟩
    obtain ⟨r, rfl, hr, -⟩ := (issues_of_thread hs hth rfl).step_of_entry
      ((tx_ok hs hx).mem_entries he₀) hisStep
    exact hrun ⟨r, rfl, hr.trans hw⟩

/-- a run that goes on silently stays on its way -/
theorem follows_advance (hs : Reachable d ok s) {t : Nat} (hl : ok s (.advance t)) {r r' : Run Val}
    (hth : s.threads[t]? = some ⟨.run r, none, true⟩) (hw : r.workflowId = W.workflowId)
    (hadv : r.advance d.toRuntime = some r') {V : View Val} (h : r.Follows W V) :
    r'.Follows W V := by
  have hstraight := straight_ok hW.admits hs (Sys.run?_eq hth) hw
  have hcode := (task_ok hs hth).code
  unfold Run.Straight at hstraight
  unfold Run.CodeOk at hcode
  rw [← hW.rt] at hadv
  rcases Run.Meets.advance h hadv with ⟨c, program, ctx, hc, hval, hbegun, rfl⟩
      | ⟨c, outcome, hc, -, hpost, rfl⟩ | ⟨rfl, -⟩
  · obtain ⟨hcount, rest, hpos, hsnap⟩ := hbegun program ctx rfl
    have hprogram := (hW.admits _ _ hl).program t r c program ctx rfl (Sys.run?_eq hth) hw hc
      (by rw [hval]; rfl)
    exact follows_resume (u := []) hprogram rfl hcount hpos hsnap
  · rw [hc] at hstraight hcode
    cases outcome with
    | ok v =>
      obtain ⟨done, rest, hpos, hsnap⟩ := hpost
      refine follows_resume (u := r.values ++ [v]) hstraight.1 ?_ ?_ hpos hsnap
      · show r.delivered ++ [.ok v] = (r.values ++ [v]).map .ok
        rw [List.map_append]
        exact congrArg (· ++ [.ok v]) hstraight.2
      · show r.context.stepCounter = (r.values ++ [v]).length
        rw [hcode.2.1, hstraight.2, List.length_map, List.length_append, List.length_singleton]
    | error error => exact follows_raise hstraight.1 rfl hpost
  · exact fun _ _ => trivial

/-- **The log of `W` is a sequence of blocks, and every run that goes on stands at a position.** -/
theorem follow_ok (hs : Reachable d ok s) : s.Follow W := by
  refine Reach.invariant_of_reach (I := fun s => s.Follow W) ?_ ?_ hs
  · refine ⟨.nil [], ?_⟩
    simp [Sys.initial]
  intro s l s' hs ih hl hstep
  refine ⟨log_step hW hs ih hl hstep, fun t r' tx' hth' hw' hover' => ?_⟩
  have hs' : Reachable d ok s' := .step l hs hl hstep
  have hstep' := Step.of_step hstep
  have hr' := Sys.run?_eq hth'
  -- what the steps of the others leave alone
  have hold {r : Run Val} {tx : Option Tx} (hth : s.threads[t]? = some ⟨.run r, tx, true⟩)
      (hw : r.workflowId = W.workflowId) (hover : r.isOver = false) (hne : l ≠ .commit t) :
      r.Follows W (s'.view W.rt W.workflowId t) := by
    obtain ⟨-, hlease, hsteps⟩ := living_step hW.keeps hW.stays hs hl hstep' hth hw hover hne
    have hsame := view_same hW hs' hstep'.loaded_subset hsteps fun _ => hlease
    exact Run.Meets.rely (ih.runs t r tx hth hw hover) fun _ => hsame
  have hnot {r : Run Val} (hr : s.run? t = some r) : r.isOver = false := by
    cases hover : r.isOver with
    | false => rfl
    | true =>
      rw [isOver_step hs hstep' hr hr' hover] at hover'
      cases hover'
  rcases run_step_cases hs hstep' hr' with ⟨hsame, hne⟩ | ⟨worker, row, tx, reply, hth, hans, rfl⟩
      | ⟨r, tx, n, reply, hth, hn, rfl, hans⟩ | ⟨r, rfl, hth, hadv⟩
  · obtain ⟨tx, alive, hth⟩ := Sys.thread_of_run? hsame
    obtain rfl : alive = true := hstep'.alive hth hth' rfl
    exact hold hth hw' hover' hne
  · have hheld : s'.lease W.workflowId = some t := hw' ▸ lease_of_claim hs hth hans
    exact (ends_startRun hheld (hW.functional _ hs') (log_step hW hs ih hl hstep) _ hw').post
  · have hw : r.workflowId = W.workflowId := by
      rw [← hw', Run.workflowId, Run.workflowId, (Run.next?_record hn reply).1]
    have hover := hnot (Sys.run?_eq hth)
    exact Run.Follows.next (ih.runs t r tx hth hw hover) hn
      (view_answers hW hs hl hstep hth hw hover hn hans)
  · have hw : r.workflowId = W.workflowId := by
      rw [← hw', Run.workflowId, Run.workflowId, (Run.advance_record hadv).1]
    exact follows_advance hW hs hl hth hw hadv
      (hold hth hw (hnot (Sys.run?_eq hth)) (by simp))

/-! ## what the runs have delivered -/

omit hW in
/-- the values are those of the first steps in the log -/
def Sys.Passed (W : Replayable Val) (s : Sys Val) (vs : List Val) : Prop :=
  ∃ done, (W.grammar (s.reads W.rt W.workflowId)).Steps vs done
    ∧ done <+: stepEntries (s.history W.workflowId)

omit hW in
theorem passed_nil (s : Sys Val) : s.Passed W [] := ⟨[], .nil, List.nil_prefix⟩

theorem steps_grow (hs : Reachable d ok s) {l : Label Val} (hstep : Step d s l s') :
    stepEntries (s.history W.workflowId) <+: stepEntries (s'.history W.workflowId) := by
  rcases hstep.tables_cases with htab | ⟨t, task, x, txn, k, -, hth, -, -, rfl⟩
  · rw [htab.history]
  · rw [Sys.setThread_history, steps_publish hW.keeps hW.stays hs (Sys.tx?_eq hth)]
    exact List.prefix_append _ _

theorem passed_step (hs : Reachable d ok s) {l : Label Val} (hstep : Step d s l s') {vs : List Val}
    (h : s.Passed W vs) : s'.Passed W vs := by
  obtain ⟨done, hdone, hpre⟩ := h
  exact ⟨done, Replayable.steps_mono (fun _ _ => Sys.reads_mono hstep.loaded_subset) hdone,
    hpre.trans (steps_grow hW hs hstep)⟩

omit hW in
theorem Run.next?_values {r : Run Val} {n : (q : Call Val) × (q.Reply → Run Val)}
    (hn : r.next? = some n) (reply : n.1.Reply) : (n.2 reply).values = r.values := by
  obtain ⟨code, hcode⟩ := Run.next?_code hn reply
  rw [hcode]
  rfl

/-- a run that has been given a value is at the position behind it -/
theorem passed_advance (hs : Reachable d ok s) {t : Nat} {r r' : Run Val} {tx : Option Tx}
    (hth : s.threads[t]? = some ⟨.run r, tx, true⟩) (hw : r.workflowId = W.workflowId)
    (hadv : r.advance d.toRuntime = some r') (h : s.Passed W r.values) : s.Passed W r'.values := by
  have hstraight := straight_ok hW.admits hs (Sys.run?_eq hth) hw
  unfold Run.Straight at hstraight
  rcases Run.advance_cases hadv with ⟨_, _, _, -, -, rfl⟩ | ⟨c, outcome, hc, hval, rfl⟩ | ⟨rfl, -⟩
  · rw [Run.values, Run.resume_delivered]
    exact passed_nil s
  · rw [hc] at hstraight
    rw [Run.values, Run.resume_delivered]
    cases outcome with
    | error error =>
      rw [values_append_error]
      exact h
    | ok v =>
      rw [values_append_ok]
      have hover : r.isOver = false := by
        unfold Run.isOver Run.hasSuspended
        rw [hstraight.2, suspends_map_ok, hc]
        show (false || c.run.value?.any suspends || false) = false
        rw [hval]
        rfl
      have hfollows := (follow_ok hW hs).runs t r tx hth hw hover
      unfold Run.Follows Run.Meets at hfollows
      simp only [hc, hval] at hfollows
      obtain ⟨done, rest, hpos, -⟩ := wp_value hfollows
      refine ⟨done, hpos.done, ?_⟩
      rw [show stepEntries (s.history W.workflowId) = done ++ rest from hpos.steps]
      exact List.prefix_append done rest
  · exact h

/-- **What the awaits of a run have returned are the values of the first steps in the log.** -/
theorem values_ok (hs : Reachable d ok s) {t : Nat} {r : Run Val} (hr : s.run? t = some r)
    (hw : r.workflowId = W.workflowId) : s.Passed W r.values := by
  refine Reach.invariant_of_reach (I := fun s => ∀ t (r : Run Val), s.run? t = some r →
    r.workflowId = W.workflowId → s.Passed W r.values) ?_ ?_ hs t r hr hw
  · intro t r hr
    rw [Sys.initial_run?] at hr
    cases hr
  intro s l s' hs ih _ hl t r' hr' hw'
  have hstep := Step.of_step hl
  rcases run_cases hstep hr' with hsame | ⟨worker, row, tx, reply, -, -, rfl⟩
      | ⟨r, tx, n, reply, hth, hn, rfl, -⟩ | ⟨r, rfl, hth, hadv⟩
  · exact passed_step hW hs hstep (ih t r' hsame hw')
  · exact passed_nil s'
  · rw [Run.next?_values hn]
    refine passed_step hW hs hstep (ih t r (Sys.run?_eq hth) ?_)
    rw [← hw', Run.workflowId, Run.workflowId, (Run.next?_record hn reply).1]
  · have hw : r.workflowId = W.workflowId := by
      rw [← hw', Run.workflowId, Run.workflowId, (Run.advance_record hadv).1]
    exact passed_step hW hs hstep
      (passed_advance hW hs hth hw hadv (ih t r (Sys.run?_eq hth) hw))

omit hW in
theorem Task.Issues.completes {L : Loaded} {task : Task Val} {txn : Txn} (h : task.Issues L txn)
    {e : Entry} (he : e ∈ txn.statements.filterMap Stmt.event?)
    (hty : e.eventType = .workflowCompleted) :
    ∃ r result parentInfo, task = .run r ∧ r.workflowId = e.workflowId
      ∧ txn = .completeWorkflow e.workflowId (.ok result) parentInfo
      ∧ e.payload = .obj [("result", result)] := by
  obtain ⟨⟨r, htask, hr⟩, status, ⟨result, parentInfo, htxn, -⟩ | ⟨message, parentInfo, htxn, -⟩⟩ :=
    h.terminal_of_entry he (by rw [hty]; rfl)
  · rw [htxn] at he
    obtain ⟨o, ho, heq | ⟨parent, -, heq⟩⟩ := mem_writeTerminal he
    · cases result with
      | error error => cases ho
      | ok result =>
        obtain rfl := Except.ok.inj ho
        exact ⟨r, result, parentInfo, htask, hr, htxn, congrArg Entry.payload heq⟩
    · rw [heq] at hty
      cases hty
  · rw [htxn] at he
    obtain ⟨o, ho, heq | ⟨parent, -, heq⟩⟩ := mem_writeTerminal he <;> (rw [heq] at hty; cases hty)

/-- **A recorded result is that of a pass over the values of the log.** -/
theorem completed_ok (hs : Reachable d ok s) {e : EventRecord} (he : e ∈ s.history W.workflowId)
    (hty : e.eventType = .workflowCompleted) :
    ∃ vs result, s.Passed W vs ∧ W.program.next vs = .ret (.ok result)
      ∧ e.payload = .obj [("result", result)] := by
  refine Reach.invariant_of_reach (I := fun s => ∀ e ∈ s.history W.workflowId,
    e.eventType = .workflowCompleted → ∃ vs result, s.Passed W vs
      ∧ W.program.next vs = .ret (.ok result) ∧ e.payload = .obj [("result", result)])
    (by simp [Sys.initial]) ?_ hs e he hty
  intro s l s' hs ih _ hl e he hty
  have hstep := Step.of_step hl
  have hold (he : e ∈ s.history W.workflowId) : ∃ vs result, s'.Passed W vs
      ∧ W.program.next vs = .ret (.ok result) ∧ e.payload = .obj [("result", result)] := by
    obtain ⟨vs, result, hpassed, h⟩ := ih e he hty
    exact ⟨vs, result, passed_step hW hs hstep hpassed, h⟩
  rcases hstep.tables_cases with htab | ⟨t, task, x, txn, k, rfl, hth, hrest, hq, hs'⟩
  · rw [htab.history] at he
    exact hold he
  obtain ⟨he, hew⟩ := Sys.mem_history.mp he
  rw [hs'] at he
  replace he : e ∈ (s.publish t x).events := he
  rcases mem_events_publish.mp he with he | he
  · exact hold (Sys.mem_history.mpr ⟨he, hew⟩)
  have hentry := (tx_ok hs (Sys.tx?_eq hth)).mem_entries he
  obtain ⟨r, result, parentInfo, rfl, hr, htxn, hpayload⟩ :=
    (issues_of_thread hs hth rfl).completes hentry hty
  have hw : r.workflowId = W.workflowId := hr.trans hew
  obtain ⟨k₀, hk₀, -, -⟩ := commit_run hs hth hstep
  have hfollows := (follow_ok hW hs).runs t r _ hth hw (not_isOver_of_tx hW hs hth hw)
  obtain ⟨-, hallows⟩ : View.Allows W _ _ := (Run.Meets.next hfollows hk₀).1
  rw [htxn] at hallows
  obtain ⟨vs, done, hdone, hpre, hnext⟩ := hallows
  exact ⟨vs, result, passed_step hW hs hstep ⟨done, hdone, hpre⟩, hnext, hpayload⟩

/-- **The body of a step that has a COMPLETED event is not invoked.** -/
theorem body_ok (hs : Reachable d ok s) {t : Nat} {r : Run Val} {tx : Option Tx}
    (hth : s.threads[t]? = some ⟨.run r, tx, true⟩) (hw : r.workflowId = W.workflowId)
    {w : String} {i : Nat} {f : ActivityFunction Val} {args : JsonSafe}
    {k : (Call.runActivityBody w i f args : Call Val).Reply → Run Val}
    (hn : r.next? = some ⟨.runActivityBody w i f args, k⟩) :
    ∀ e ∈ s.history W.workflowId, e.toEntry.isAt i .completed = false := by
  have hover : r.isOver = false := by
    cases hover : r.isOver with
    | false => rfl
    | true => cases now_of_isOver hW.stays hs (Sys.run?_eq hth) hw hover hn
  have hfollows := (follow_ok hW hs).runs t r tx hth hw hover
  have hask := (Run.Meets.next hfollows hn).1
  obtain ⟨-, hallows⟩ : View.Allows W _ (.runActivityBody w i f args) := hask
  intro e he
  cases hat : e.toEntry.isAt i .completed with
  | false => rfl
  | true =>
    rw [← hat]
    exact hallows e.toEntry (List.mem_filter.mpr
      ⟨List.mem_map_of_mem he, Entry.isStep_of_isAt hat⟩)

end

end

end TemporalLight
