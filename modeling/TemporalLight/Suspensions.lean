import TemporalLight.Steps

/-!
# What a run does after a suspension

`WorkflowSuspended` is an `Exception` that is raised at an await, after the row has been rescheduled,
marked or failed, so workflow code can catch it and go on.  The README calls it never visible to
user code, and so it is if the function, once an await has raised it, does nothing but raise it
again; a step in between is harmless only if the snapshot of the run answers it
(`Action.isAnswered`).

* `silent_executeStep`   a step that the snapshot answers asks at most for the time
* `suspension_final`     under this condition a suspended run writes and executes nothing more
-/

namespace TemporalLight
open Runs Resumption

section
variable {Val : Type}

/-! ## suspended runs -/

/-- the await raises `WorkflowSuspended` -/
def suspends : Outcome Val → Bool
  | .error error => error.isSuspension
  | .ok _ => false

/-- a step of the run has suspended the workflow, or has failed it by exhausted retries -/
def Run.hasSuspended (r : Run Val) : Bool :=
  r.delivered.any suspends || match r.code with
    | .stepping c => c.run.value?.any suspends
    | _ => false

/-- the action needs no more than the history of the run: it is a step with its recorded end, or it
passes the suspension on -/
def Action.isAnswered (rt : Runtime Val) (ctx : WorkflowContext) (clock : Int) : Action Val → Bool
  | .activity _ _ => (ctx.findCompletedEvent ctx.stepCounter).isSome
  | .sleep _ _ _ _ => (ctx.findEvent ctx.stepCounter .sleep).any fun event =>
      decide (rt.fromisoformat (wakeupAtRaw event) ≤ clock)
  | .spawnChild _ _ => (ctx.findChildStartedEvent ctx.stepCounter).isSome
  | .waitForChild childId => (ctx.eventHistory.find? (Wait.child childId).isAnswer).isSome
  | .waitForSignal signalType => (ctx.eventHistory.find? (Wait.signal signalType).isAnswer).isSome
  | .ret _ => false
  | .raise error => error.isSuspension

/-- what the function does next, once an await of its run has raised `WorkflowSuspended`, is answered
by the history of the run -/
def Sys.staysSuspended (d : Deployment Val) (s : Sys Val) : Label Val → Bool
  | .advance t => (s.run? t).all fun r => match r.code with
    | .stepping c => c.run.value?.all fun outcome =>
      let delivered := r.delivered ++ [outcome]
      !delivered.any suspends
        || (r.program delivered).isAnswered d.toRuntime r.context s.clock
    | _ => true
  | _ => true

def Run.staysSuspended (rt : Runtime Val) (r : Run Val) (clock : Int) : Bool :=
  match r.code with
  | .stepping c => c.run.value?.all fun outcome =>
    let delivered := r.delivered ++ [outcome]
    !delivered.any suspends || (r.program delivered).isAnswered rt r.context clock
  | _ => true

theorem Sys.staysSuspended_advance {d : Deployment Val} {s : Sys Val} {t : Nat} {r : Run Val}
    (h : s.staysSuspended d (.advance t) = true) (hr : s.run? t = some r) :
    r.staysSuspended d.toRuntime s.clock = true := by
  rw [Sys.staysSuspended, hr, Option.all_some] at h
  exact h

/-! ## silent code -/

def Call.Told (clock : Int) : (q : Call Val) → q.Reply → Prop
  | .now, time => time = clock
  | _, _ => True

/-- code that asks for nothing but the time -/
def silentRules : Rules (Call Val) Call.Reply Int where
  rely clock clock' := clock ≤ clock'
  ask q _ := q = .now
  answer q reply clock clock' := clock = clock' ∧ q.Told clock reply
  keep _ _ := True
  rely_refl _ := le_rfl
  rely_trans := le_trans

theorem silent_pure {α : Type} {a : α} {clock : Int} :
    wp (silentRules : Rules (Call Val) Call.Reply Int) (.pure a) (fun _ _ => True) clock :=
  fun _ _ => trivial

variable {rt : Runtime Val} {ctx : WorkflowContext} {clock : Int}

/-- a step that the history answers asks at most for the time -/
theorem silent_executeStep {action : Action Val} (h : action.isAnswered rt ctx clock = true) :
    wp silentRules (executeStep rt ctx action).run (fun _ _ => True) clock := by
  have hwait : ∀ wait : Wait, (ctx.eventHistory.find? wait.isAnswer).isSome = true →
      wp silentRules (waitFor rt ctx wait).run (fun _ _ => True) clock := by
    intro wait h
    obtain ⟨answer, hanswer⟩ := Option.isSome_iff_exists.mp h
    unfold waitFor
    rw [hanswer]
    exact silent_pure
  cases action with
  | activity f args =>
    obtain ⟨event, hevent⟩ := Option.isSome_iff_exists.mp h
    show wp _ (executeActivity rt ctx f args).run _ _
    unfold executeActivity
    dsimp only
    rw [show ctx.nextStepIndex.1 = ctx.stepCounter from rfl, hevent]
    exact silent_pure
  | sleep seconds minutes hours days =>
    obtain ⟨event, hevent, htime⟩ := (Option.any_eq_true _ _).mp h
    have htime := of_decide_eq_true htime
    show wp _ (sleep rt ctx seconds minutes hours days).run _ _
    unfold sleep
    dsimp only
    rw [show ctx.nextStepIndex.1 = ctx.stepCounter from rfl, hevent]
    refine wp_run_bind ?_
    rw [run_now]
    intro clock₁ hclock
    refine ⟨rfl, fun (time : Int) clock₂ hans => ⟨trivial, fun clock₃ _ => ?_⟩⟩
    obtain ⟨rfl, htold⟩ := hans
    have htold : time = clock₁ := htold
    have htime' : rt.fromisoformat (wakeupAtRaw event) ≤ time := by
      rw [htold]
      exact htime.trans hclock
    show wp silentRules (ExceptT.run (if rt.fromisoformat (wakeupAtRaw event) ≤ time
      then Pure.pure (rt.ofJson .null) else _)) _ clock₃
    rw [if_pos htime']
    exact silent_pure
  | spawnChild name kwargs =>
    obtain ⟨event, hevent⟩ := Option.isSome_iff_exists.mp h
    show wp _ (spawnChild rt ctx name kwargs).run _ _
    unfold spawnChild
    dsimp only
    rw [show ctx.nextStepIndex.1 = ctx.stepCounter from rfl, hevent]
    exact silent_pure
  | waitForChild childId => exact hwait (.child childId) h
  | waitForSignal signalType => exact hwait (.signal signalType) h
  | ret result => cases h
  | raise error => exact silent_pure

/-! ## suspended runs stay silent -/

variable {d : Deployment Val} {s s' : Sys Val} {ok : Sys Val → Label Val → Prop}

def Run.Silent (r : Run Val) (clock : Int) : Prop :=
  r.Meets silentRules (fun _ _ => False) (fun _ _ => True) (fun _ => True) clock

/-- a run that has just gone on, after a suspension, to an answered step -/
theorem silent_resume {r : Run Val}
    (h : r.delivered.any suspends = true →
      (r.program r.delivered).isAnswered rt r.context clock = true)
    (hsusp : (r.resume rt).hasSuspended = true) : (r.resume rt).Silent clock := by
  unfold Run.resume at hsusp ⊢
  dsimp only at hsusp ⊢
  by_cases hdel : r.delivered.any suspends = true
  · have hans := h hdel
    by_cases hend : (r.program r.delivered).isEnd = true
    · rw [if_pos hend]
      show wp silentRules (finishRun rt r.context (r.program r.delivered)).run _ clock
      cases haction : r.program r.delivered with
      | raise error =>
        rw [haction] at hans
        cases error with
        | workflowSuspended message => exact silent_pure
        | _ => cases hans
      | ret result =>
        rw [haction] at hans
        cases hans
      | _ =>
        rw [haction] at hend
        cases hend
    · rw [if_neg hend]
      exact silent_executeStep hans
  · rw [Bool.not_eq_true] at hdel
    by_cases hend : (r.program r.delivered).isEnd = true
    · rw [if_pos hend, Run.hasSuspended] at hsusp
      simp [hdel] at hsusp
    · -- the new step suspends at once, so nothing is left of it
      rw [if_neg hend] at hsusp ⊢
      simp only [Run.hasSuspended, hdel, Bool.false_or] at hsusp
      obtain ⟨outcome, hval, -⟩ := (Option.any_eq_true _ _).mp hsusp
      show wp silentRules (executeStep rt r.context (r.program r.delivered)).run _ clock
      rw [Resumption.value?_eq_some hval]
      exact silent_pure

theorem silent_next {r : Run Val} (h : r.hasSuspended = true → r.Silent clock)
    {n : (q : Call Val) × (q.Reply → Run Val)} (hn : r.next? = some n) {reply : n.1.Reply}
    (hans : n.1 = .now → silentRules.answer n.1 reply clock clock)
    (hsusp : (n.2 reply).hasSuspended = true) : (n.2 reply).Silent clock := by
  by_cases hr : r.hasSuspended = true
  · obtain ⟨hask, hnext⟩ := (h hr).next hn
    exact hnext reply clock (hans hask)
  · rw [Bool.not_eq_true, Run.hasSuspended, Bool.or_eq_false_iff] at hr
    obtain ⟨code, hcode⟩ := Run.next?_code hn reply
    rw [hcode] at hsusp ⊢
    rw [Run.hasSuspended] at hsusp
    simp only [hr.1, Bool.false_or] at hsusp
    cases code with
    | stepping c =>
      obtain ⟨outcome, hval, -⟩ := (Option.any_eq_true _ _).mp hsusp
      show wp silentRules c.run _ clock
      rw [Resumption.value?_eq_some hval]
      exact silent_pure
    | _ => cases hsusp

theorem silent_ok {w : String} (hok : ∀ s t r, ok s (.advance t) → s.run? t = some r →
      r.workflowId = w → r.staysSuspended d.toRuntime s.clock = true)
    (hs : Reachable d ok s) {t : Nat} {r : Run Val} (hr : s.run? t = some r) (hw : r.workflowId = w)
    (hsusp : r.hasSuspended = true) : r.Silent s.clock := by
  obtain ⟨past, htrace⟩ := hs.exists_trace
  revert hw hsusp
  refine run_invariant (I := fun _ s _ r => r.workflowId = w → r.hasSuspended = true →
    r.Silent s.clock) ?_ ?_ ?_ ?_ ?_ htrace hr
  · intro t r hr
    rw [Sys.initial_run?] at hr
    cases hr
  · intro _ _ _ _ _ worker row _ _ _ _ _ _ _ _ hsusp
    simp [Run.claimed, Run.hasSuspended] at hsusp
  · intro _ s l s' t r _ _ hstep _ _ h hw hsusp
    exact (h hw hsusp).rely hstep.clock_le
  · intro _ s l s' t r tx n reply _ _ hstep _ hn hans h hw hsusp
    replace hw : r.workflowId = w :=
      (congrArg WorkflowRecord.workflowId (Run.next?_record hn reply).1).symm.trans hw
    refine (silent_next (h hw) hn (fun hnow => ?_) hsusp).rely hstep.clock_le
    obtain ⟨q, k⟩ := n
    obtain rfl : q = .now := hnow
    cases hans with
    | read hreply => exact ⟨rfl, (Option.some.inj hreply).symm⟩
  · intro _ s s' t r r' _ hl hstep hth hadv _ hw hsusp
    replace hw : r.workflowId = w :=
      (congrArg WorkflowRecord.workflowId (Run.advance_record hadv).1).symm.trans hw
    refine Run.Meets.rely (v := s.clock) ?_ hstep.clock_le
    rcases Run.advance_cases hadv with ⟨_, _, _, -, -, rfl⟩ | ⟨c, outcome, hc, hval, rfl⟩ | ⟨rfl, -⟩
    · exact silent_resume nofun hsusp
    · refine silent_resume (fun hdel => ?_) hsusp
      have hans := hok s t r hl (Sys.run?_eq hth) hw
      rw [Run.staysSuspended, hc] at hans
      simp only [hval, Resumption.value?, Option.all_some, Bool.or_eq_true, Bool.not_eq_true'] at hans
      exact hans.resolve_left fun hnot => by simp [hnot] at hdel
    · exact fun _ _ => trivial

theorem Run.resume_delivered (r : Run Val) : (r.resume rt).delivered = r.delivered := by
  unfold Run.resume
  dsimp only
  split <;> rfl

theorem Run.hasSuspended_of_delivered {r : Run Val} (h : r.delivered.any suspends = true) :
    r.hasSuspended = true := by
  rw [Run.hasSuspended, h, Bool.true_or]

/-- a suspended run stays suspended -/
theorem hasSuspended_step (hs : Reachable d ok s) {l : Label Val} (hstep : Step d s l s') {t : Nat}
    {r : Run Val} (hr : s.run? t = some r) (hsusp : r.hasSuspended = true) :
    ∃ r', s'.run? t = some r' ∧ r'.hasSuspended = true := by
  obtain ⟨tx, alive, hth⟩ := Sys.thread_of_run? hr
  obtain ⟨r', tx', alive', hth', -, -⟩ := Sys.Runs.step hstep ⟨r, tx, alive, hth, rfl, rfl⟩
  refine ⟨r', Sys.run?_eq hth', ?_⟩
  have same {r₀ : Run Val} {tx₀ : Option Tx} (h : s.threads[t]? = some ⟨.run r₀, tx₀, true⟩) :
      r₀ = r := by
    rw [hth] at h
    exact (Task.run.inj (Thread.mk.inj (Option.some.inj h)).1).symm
  rcases run_cases hstep (Sys.run?_eq hth') with hsame | ⟨_, _, _, _, hth₀, -, -⟩
      | ⟨r₀, tx₀, n, reply, hth₀, hn, rfl, -⟩ | ⟨r₀, -, hth₀, hadv⟩
  · rw [hr] at hsame
    exact Option.some.inj hsame ▸ hsusp
  · rw [hth] at hth₀
    cases (Thread.mk.inj (Option.some.inj hth₀)).1
  · obtain rfl := same hth₀
    obtain ⟨code, hcode⟩ := Run.next?_code hn reply
    rw [Run.hasSuspended, Bool.or_eq_true] at hsusp
    rcases hsusp with hdel | hval
    · rw [hcode]
      exact Run.hasSuspended_of_delivered hdel
    · -- a step that has come to its value asks nothing
      unfold Run.next? at hn
      cases hc : r₀.code with
      | stepping c =>
        rw [hc] at hn hval
        obtain ⟨outcome, hval, -⟩ := (Option.any_eq_true _ _).mp hval
        dsimp only at hn
        rw [Resumption.value?_eq_some hval] at hn
        cases hn
      | _ =>
        rw [hc] at hval
        cases hval
  · obtain rfl := same hth₀
    have hcodeOk := (task_ok hs hth).code
    rw [Run.hasSuspended, Bool.or_eq_true] at hsusp
    unfold Run.CodeOk at hcodeOk
    rcases Run.advance_cases hadv with ⟨c, _, _, hc, -, rfl⟩ | ⟨c, outcome, hc, hval, rfl⟩ | ⟨rfl, hend⟩
    · rw [hc] at hcodeOk hsusp
      rw [hcodeOk.1] at hsusp
      rcases hsusp with hsusp | hsusp <;> cases hsusp
    · refine Run.hasSuspended_of_delivered ?_
      rw [Run.resume_delivered, List.any_append, Bool.or_eq_true]
      refine hsusp.imp_right fun hsusp => ?_
      rw [hc] at hsusp
      simpa [hval, Resumption.value?] using hsusp
    · refine Run.hasSuspended_of_delivered ?_
      rcases hend with ⟨c, _, hc, -, -⟩ | ⟨c, _, hc, -⟩ <;> rw [hc] at hsusp <;> simpa using hsusp

/-- **If workflow functions stay suspended, then a run in which a step has suspended the workflow
makes no further call but to read the time: it executes no body, opens no transaction, and its steps
leave the tables as they are.** -/
theorem suspension_final (hs : Reachable d (fun s l => s.staysSuspended d l) s) {t : Nat} {r : Run Val}
    (hr : s.run? t = some r) (hsusp : r.hasSuspended = true)
    (h : Reach (Sys.step d) (fun s l => s.staysSuspended d l) s s') :
    ∃ r', s'.run? t = some r' ∧ (∀ n, r'.next? = some n → n.1 = .now) ∧ s'.tx? t = none
      ∧ ∀ l s'', l.caller? = some t → s'.step d l = some s'' →
        l = .read t ∧ s''.workflows = s'.workflows ∧ s''.events = s'.events := by
  obtain ⟨r', hr', hsusp'⟩ : ∃ r', s'.run? t = some r' ∧ r'.hasSuspended = true := by
    refine (Reach.invariant_of_reach (I := fun s' => ∃ r', s'.run? t = some r'
      ∧ r'.hasSuspended = true) ⟨r, hr, hsusp⟩ ?_ h)
    rintro s₁ l s₂ hs₁ ⟨r₁, hr₁, hsusp₁⟩ _ hl
    exact hasSuspended_step (hs.trans hs₁) (Step.of_step hl) hr₁ hsusp₁
  have hs' := hs.trans h
  have hnow : ∀ n, r'.next? = some n → n.1 = .now := fun n hn =>
    ((silent_ok (fun _ _ _ h hr _ => Sys.staysSuspended_advance h hr) hs' hr' rfl hsusp').next hn).1
  obtain ⟨tx, alive, hth⟩ := Sys.thread_of_run? hr'
  have hcall {task : Task Val} {tx' : Option Tx} {alive' : Bool} {q : Call Val}
      {k : q.Reply → Task Val} (hth' : s'.threads[t]? = some ⟨task, tx', alive'⟩)
      (hk : task.next? d t = some ⟨q, k⟩) : q = .now := by
    rw [hth] at hth'
    obtain ⟨rfl, -⟩ := Thread.mk.inj (Option.some.inj hth')
    obtain ⟨n, hn, hk⟩ := Option.map_eq_some_iff.mp hk
    exact (congrArg Sigma.fst hk).symm.trans (hnow n hn)
  have htx : s'.tx? t = none := by
    cases hx : s'.tx? t with
    | none => rfl
    | some x =>
      obtain ⟨task, alive', hth'⟩ := Sys.tx?_eq_some hx
      obtain ⟨-, k, hk⟩ := txn_of_thread hs' hth' rfl
      cases hcall hth' hk
  have hclosed {task : Task Val} {x : Tx} {alive' : Bool}
      (hth' : s'.threads[t]? = some ⟨task, some x, alive'⟩) : False := by
    rw [Sys.tx?_eq hth'] at htx
    cases htx
  refine ⟨r', hr', hnow, htx, fun l s'' hl hstep => ?_⟩
  cases Step.of_step hstep with
  | begin hth' hq =>
    obtain rfl := Option.some.inj hl
    cases hcall hth' hq
  | execute hth' _ _ =>
    obtain rfl := Option.some.inj hl
    exact (hclosed hth').elim
  | commit hth' _ _ =>
    obtain rfl := Option.some.inj hl
    exact (hclosed hth').elim
  | read hth' hq hreply =>
    obtain rfl := Option.some.inj hl
    exact ⟨rfl, by simp, by simp⟩
  | body result hth' hq =>
    obtain rfl := Option.some.inj hl
    cases hcall hth' hq
  | _ => cases hl

end

/-! ## a handler around a sleep -/

def cleanup : ActivityFunction Json where
  qualname := "cleanup"
  maxRetries := 0
  backoffSeconds := 0
  fromJsonSafe := .ok

/-- `h` catches every exception of its sleep and cleans up, `n` has no handler -/
def cleansUp : Deployment Json :=
  .plain fun name => some fun _ delivered =>
    match delivered with
    | [] => .sleep 0 0 0 0
    | [.error error] =>
      if name == "h" then .activity cleanup (.ok (.json (.obj []))) else .raise error
    | _ => .ret (.ok .null)

def suspendsAt (name : String) : List (Label Json) :=
  [.request (.startWorkflow .w name (.obj []))] ++ transact 0 3
    ++ [.claim "A" (newRow "w" name none 0)] ++ transact 1 2
    ++ [.read 1, .advance 1, .read 1] ++ transact 1 2 ++ [.read 1] ++ transact 1 1

def goesOn : List (Label Json) := [.advance 1] ++ transact 1 2 ++ [.read 1, .read 1]

def Sys.suspended (s : Sys Json) : Bool := (s.run? 1).any Run.hasSuspended

theorem suspension_final_once : ∃ (s : Sys Json) (r : Run Json), s.run? 1 = some r
    ∧ r.hasSuspended = true ∧ (∀ n, r.next? = some n → n.1 = .now) ∧ s.tx? 1 = none := by
  have hrun : (follow (Sys.step cleansUp) (fun s l => s.staysSuspended cleansUp l) Sys.initial
      (suspendsAt "n" ++ [.advance 1])).any Sys.suspended = true := by
    decide +kernel
  obtain ⟨s, hs, h⟩ := Reach.exists_of_follow _ hrun
  obtain ⟨r, hr, hsusp⟩ := (Option.any_eq_true _ _).mp h
  obtain ⟨r', hr', hnow, htx, -⟩ := suspension_final hs hr hsusp .start
  obtain rfl := Option.some.inj (hr.symm.trans hr')
  exact ⟨s, r, hr, hsusp, hnow, htx⟩

/-- the sleep has suspended the run; the handler writes a SCHEDULED event and executes a body -/
theorem suspension_caught : ∃ (s s' : Sys Json) (r : Run Json),
    Reachable cleansUp (fun _ _ => true) s ∧ s.run? 1 = some r ∧ r.hasSuspended = true
      ∧ Reach (Sys.step cleansUp) (fun _ _ => true) s s'
      ∧ (s.history "w").length < (s'.history "w").length
      ∧ (s'.step cleansUp (.body 1 (.ok .null))).isSome = true := by
  let grows (s s' : Sys Json) : Bool := decide ((s.history "w").length < (s'.history "w").length)
    && (s'.step cleansUp (.body 1 (.ok .null))).isSome
  have hrun : (follow (Sys.step cleansUp) (fun _ _ => true) Sys.initial (suspendsAt "h")).any
      (fun s => s.suspended
        && (follow (Sys.step cleansUp) (fun _ _ => true) s goesOn).any (grows s)) = true := by
    decide +kernel
  obtain ⟨s, hs, h⟩ := Reach.exists_of_follow _ hrun
  obtain ⟨hsusp, h⟩ := Bool.and_eq_true_iff.mp h
  obtain ⟨r, hr, hsusp⟩ := (Option.any_eq_true _ _).mp hsusp
  obtain ⟨s', hs', h'⟩ := Reach.exists_of_follow _ h
  obtain ⟨hgrows, hbody⟩ := Bool.and_eq_true_iff.mp h'
  exact ⟨s, s', r, hs, hr, hsusp, hs', of_decide_eq_true hgrows, hbody⟩

end TemporalLight
