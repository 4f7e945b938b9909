import TemporalLight.Position
import TemporalLight.Ownership
import TemporalLight.Suspensions

/-!
# One run at a time

A run gives its lease up in the last call it makes, so a run that goes on has not given it up; and
while no live run's lease lapses nobody else can take it.  What is left of a run after that is
silent, if workflow functions stay suspended.

* `last_executeStep`  a step that gives the lease up asks nothing more, and suspends
* `lease_or_over`     a living run holds the lease of its workflow, or its calls are over
* `lease_of_txn`      hence the runs of one workflow have no transactions open side by side
* `steps_frame`       and the steps in the log of a workflow are written by the holder alone
* `one_run_works`     so of all living runs of a workflow at most one has anything left to do
-/

namespace TemporalLight
open Runs Resumption

section
variable {Val : Type}

/-! ## the lease is given up last -/

def Call.gaveUp : (q : Call Val) → q.Reply → Prop
  | .transaction txn, result => txn.releases = true ∧ (result : Except PyExc Bool) = .ok true
  | _, _ => False

section
variable {α : Type} {P : Except PyExc α → Prop} {rt : Runtime Val} {ctx : WorkflowContext}

theorem last_now {P : Except PyExc Int → Prop} : (now : Engine Val Int).run.Last Call.gaveUp P :=
  .of_asks (asks_now fun _ => id)

theorem last_result {P : Except PyExc α → Prop} (r : Except PyExc α) :
    (ExceptT.mk (.pure r) : Engine Val α).run.Last Call.gaveUp P :=
  trivial

theorem last_writeEvent {P : Except PyExc Unit → Prop} (w : String) (i : Int) (n : String)
    (ty : EventType) (payload : Except PyExc Json) :
    (writeEvent w i n ty payload : Engine Val Unit).run.Last Call.gaveUp P := by
  refine .of_asks (Asks.run_bind (asks_call (.insertEvent w i n ty payload) ?_) fun _ =>
    ⟨fun _ => id, fun _ => trivial⟩)
  rintro r ⟨h, -⟩
  cases h

theorem last_transaction {P : Except PyExc Bool → Prop} (txn : Txn)
    (h : txn.releases = true → P (.ok true)) :
    (transaction txn : Engine Val Bool).run.Last Call.gaveUp P := by
  refine fun r => ⟨?_, trivial⟩
  rintro ⟨hrel, hr⟩
  exact ⟨.ok true, congrArg Resumption.pure hr, h hrel⟩

theorem last_handleActivityFailure {P : Except PyExc Unit → Prop} (i : Nat) (f : ActivityFunction Val)
    (n : Nat) (error : PyExc) (duration : Int) (h : P (.ok ())) :
    (handleActivityFailure rt ctx i f n error duration).run.Last Call.gaveUp P := by
  unfold handleActivityFailure
  refine Last.run_bind (last_result _) fun errorMessage => ?_
  refine Last.run_bind (last_writeEvent _ _ _ _ _) fun _ => ?_
  show Last _ _ (ExceptT.run (if _ then _ else _))
  split
  · refine Last.run_bind last_now fun time => Last.run_bind (last_result _) fun retryAt => ?_
    exact Last.run_bind (last_transaction _ fun _ => ⟨_, rfl, h⟩) fun _ => trivial
  · exact Last.run_bind (last_transaction _ fun _ => ⟨_, rfl, h⟩) fun _ => trivial

theorem last_runAttempt (i : Nat) (f : ActivityFunction Val) (args : JsonSafe) :
    (runAttempt rt ctx i f args).run.Last Call.gaveUp (fun outcome => suspends outcome = true) := by
  unfold runAttempt
  refine Last.run_bind last_now fun startedAt => ?_
  have hbody {P : Except PyExc (Except PyExc Val) → Prop} :
      (runActivityBody ctx.workflowId i f args : Engine Val _).run.Last Call.gaveUp P :=
    .of_asks ⟨fun _ => id, fun _ => trivial⟩
  refine Last.run_bind hbody fun result => ?_
  cases result with
  | error executionError =>
    show Last _ _ (ExceptT.run (if _ then _ else _))
    split
    · refine Last.run_bind last_now fun endedAt => ?_
      exact Last.run_bind (last_handleActivityFailure i f _ _ _ ⟨_, rfl, rfl⟩) fun _ => trivial
    · trivial
  | ok result =>
    refine Last.run_bind last_now fun endedAt => ?_
    exact Last.run_bind (last_writeEvent _ _ _ _ _) fun _ => trivial

theorem last_waitFor (wait : Wait) :
    (waitFor rt ctx wait).run.Last Call.gaveUp (fun outcome => suspends outcome = true) := by
  have hsuspend : (suspendUnlessAnswered rt ctx wait).run.Last Call.gaveUp
      (fun outcome => suspends outcome = true) := by
    unfold suspendUnlessAnswered
    refine Last.run_bind (last_transaction _ fun _ => ⟨_, rfl, rfl⟩) fun marked => ?_
    cases marked with
    | true => trivial
    | false =>
      have hload {P : Except PyExc (List EventRecord) → Prop} :
          (loadEventHistory ctx.workflowId : Engine Val _).run.Last Call.gaveUp P :=
        .of_asks ⟨fun _ => id, fun _ => trivial⟩
      refine Last.run_bind hload fun history => ?_
      dsimp only
      split <;> trivial
  unfold waitFor
  dsimp only
  split
  · trivial
  · split
    · exact Last.run_bind (last_writeEvent _ _ _ _ _) fun _ => hsuspend
    · exact hsuspend

/-- **A step that gives the lease up asks nothing more, and suspends.** -/
theorem last_executeStep (action : Action Val) :
    (executeStep rt ctx action).run.Last Call.gaveUp (fun outcome => suspends outcome = true) := by
  cases action with
  | activity f args =>
    show Last _ _ (executeActivity rt ctx f args).run
    unfold executeActivity
    dsimp only
    split
    · trivial
    · refine Last.run_bind (last_result args) fun arguments => ?_
      split
      · exact Last.run_bind (last_result _) fun _ => last_runAttempt _ f arguments
      · exact Last.run_bind (last_writeEvent _ _ _ _ _) fun _ => last_runAttempt _ f arguments
  | sleep seconds minutes hours days =>
    show Last _ _ (sleep rt ctx seconds minutes hours days).run
    unfold sleep
    dsimp only
    split
    · refine Last.run_bind last_now fun time => ?_
      split
      · trivial
      · exact Last.run_bind (last_transaction _ fun _ => ⟨_, rfl, rfl⟩) fun _ => trivial
    · refine Last.run_bind last_now fun time => ?_
      refine Last.run_bind (last_result _) fun wakeupAt => ?_
      refine Last.run_bind (last_writeEvent _ _ _ _ _) fun _ => ?_
      exact Last.run_bind (last_transaction _ fun _ => ⟨_, rfl, rfl⟩) fun _ => trivial
  | spawnChild name kwargs =>
    show Last _ _ (spawnChild rt ctx name kwargs).run
    unfold spawnChild
    dsimp only
    split
    · trivial
    · exact Last.run_bind (last_transaction _ nofun) fun _ => trivial
  | waitForChild childId => exact last_waitFor (.child childId)
  | waitForSignal signalType => exact last_waitFor (.signal signalType)
  | ret result => trivial
  | raise error => trivial

theorem last_startRun (registry : String → Option (Json → Program Val)) (record : WorkflowRecord) :
    (startRun registry record).run.Last Call.gaveUp (fun result => ∀ p, result ≠ .ok (some p)) := by
  have hload {P : Except PyExc (List EventRecord) → Prop} :
      (loadEventHistory record.workflowId : Engine Val _).run.Last Call.gaveUp P :=
    .of_asks ⟨fun _ => id, fun _ => trivial⟩
  unfold startRun
  refine Last.run_bind hload fun history => ?_
  dsimp only
  split
  · exact Last.run_bind (last_transaction _ fun _ => ⟨_, rfl, by simp⟩) fun _ => trivial
  · split
    · exact Last.run_bind (last_transaction _ fun _ => ⟨_, rfl, by simp⟩) fun _ => trivial
    · trivial

theorem last_finishRun (action : Action Val) :
    (finishRun rt ctx action).run.Last Call.gaveUp (fun _ => True) := by
  cases action with
  | ret result => exact Last.run_bind (last_transaction _ fun _ => ⟨_, rfl, trivial⟩) fun _ => trivial
  | raise error =>
    cases error with
    | workflowSuspended message => trivial
    | baseException typeName message => trivial
    | _ =>
      refine Last.run_bind (last_result _) fun message => ?_
      exact Last.run_bind (last_transaction _ fun _ => ⟨_, rfl, trivial⟩) fun _ => trivial
  | _ => trivial

end

/-! ## runs whose calls are over -/

/-- the run has suspended the workflow, or it is at its end -/
def Run.isOver (r : Run Val) : Bool :=
  r.hasSuspended || match r.code with
    | .starting c => c.run.value?.any fun result => match result with
      | .ok (some _) => false
      | _ => true
    | .stepping _ => false
    | .ending c => c.run.value?.isSome
    | .ended => true

/-- what is left of the run gives the lease up last -/
def Run.LeavesLast (r : Run Val) : Prop :=
  match r.code with
  | .starting c => c.run.Last Call.gaveUp fun result => ∀ p, result ≠ .ok (some p)
  | .stepping c => c.run.Last Call.gaveUp fun outcome => suspends outcome = true
  | .ending c => c.run.Last Call.gaveUp fun _ => True
  | .ended => True

theorem leavesLast_resume (rt : Runtime Val) (r : Run Val) : (r.resume rt).LeavesLast := by
  unfold Run.resume
  dsimp only
  split
  · exact last_finishRun _
  · exact last_executeStep _

theorem Run.LeavesLast.next {r : Run Val} (h : r.LeavesLast)
    {n : (q : Call Val) × (q.Reply → Run Val)} (hn : r.next? = some n) (reply : n.1.Reply) :
    (n.1.gaveUp reply → (n.2 reply).isOver = true) ∧ (n.2 reply).LeavesLast := by
  unfold Run.LeavesLast at h
  unfold Run.next? at hn
  cases hc : r.code with
  | starting c =>
    rw [hc] at h hn
    obtain ⟨m, hm, rfl⟩ := Option.map_eq_some_iff.mp hn
    obtain ⟨hlast, hrest⟩ := h.next hm reply
    refine ⟨fun hfinal => ?_, hrest⟩
    obtain ⟨result, hpure, hnone⟩ := hlast hfinal
    unfold Run.isOver
    dsimp only
    rw [Bool.or_eq_true]
    refine .inr ?_
    show (Resumption.value? (m.2 reply)).any _ = true
    rw [hpure]
    match result, hnone with
    | .ok (some p), hnone => exact absurd rfl (hnone p)
    | .ok none, _ => rfl
    | .error e, _ => rfl
  | stepping c =>
    rw [hc] at h hn
    obtain ⟨m, hm, rfl⟩ := Option.map_eq_some_iff.mp hn
    obtain ⟨hlast, hrest⟩ := h.next hm reply
    refine ⟨fun hfinal => ?_, hrest⟩
    obtain ⟨outcome, hpure, hsusp⟩ := hlast hfinal
    unfold Run.isOver Run.hasSuspended
    dsimp only
    rw [Bool.or_eq_true, Bool.or_eq_true]
    refine .inl (.inr ?_)
    show (Resumption.value? (m.2 reply)).any suspends = true
    rw [hpure]
    exact hsusp
  | ending c =>
    rw [hc] at h hn
    obtain ⟨m, hm, rfl⟩ := Option.map_eq_some_iff.mp hn
    obtain ⟨hlast, hrest⟩ := h.next hm reply
    refine ⟨fun hfinal => ?_, hrest⟩
    obtain ⟨result, hpure, -⟩ := hlast hfinal
    unfold Run.isOver
    dsimp only
    rw [Bool.or_eq_true]
    refine .inr ?_
    show (Resumption.value? (m.2 reply)).isSome = true
    rw [hpure]
    rfl
  | ended =>
    rw [hc] at hn
    cases hn

variable {d : Deployment Val} {s s' : Sys Val} {ok : Sys Val → Label Val → Prop}

theorem leavesLast_ok (hs : Reachable d ok s) {t : Nat} {r : Run Val} (hr : s.run? t = some r) :
    r.LeavesLast := by
  obtain ⟨past, htrace⟩ := hs.exists_trace
  refine run_invariant (I := fun _ _ _ r => r.LeavesLast) ?_ ?_ ?_ ?_ ?_ htrace hr
  · intro t r hr
    rw [Sys.initial_run?] at hr
    cases hr
  · exact fun _ _ _ _ _ _ _ _ _ _ _ _ _ _ => last_startRun _ _
  · exact fun _ _ _ _ _ _ _ _ _ _ _ h => h
  · exact fun _ _ _ _ _ r _ n reply _ _ _ _ hn _ h => (h.next hn reply).2
  · intro _ _ _ _ r r' _ _ _ _ hadv h
    rcases Run.advance_cases hadv with ⟨_, _, _, -, -, rfl⟩ | ⟨_, _, -, -, rfl⟩ | ⟨rfl, -⟩
    · exact leavesLast_resume _ _
    · exact leavesLast_resume _ _
    · trivial

theorem Run.hasSuspended_of_next {r : Run Val} (h : r.isOver = true)
    {n : (q : Call Val) × (q.Reply → Run Val)} (hn : r.next? = some n) : r.hasSuspended = true := by
  unfold Run.isOver at h
  rw [Bool.or_eq_true] at h
  refine h.resolve_right fun hcode => ?_
  unfold Run.next? at hn
  cases hc : r.code with
  | ended =>
    rw [hc] at hn
    cases hn
  | stepping c =>
    rw [hc] at hcode
    cases hcode
  | _ =>
    rw [hc] at hn hcode
    obtain ⟨m, hm, -⟩ := Option.map_eq_some_iff.mp hn
    simp [Resumption.pending?_eq_some hm, Resumption.value?] at hcode

/-- a run that is over stays so -/
theorem isOver_step (hs : Reachable d ok s) {l : Label Val} (hstep : Step d s l s') {t : Nat}
    {r r' : Run Val} (hr : s.run? t = some r) (hr' : s'.run? t = some r') (h : r.isOver = true) :
    r'.isOver = true := by
  have hsuspended (hsusp : r.hasSuspended = true) : r'.isOver = true := by
    obtain ⟨r₁, hr₁, hsusp₁⟩ := hasSuspended_step hs hstep hr hsusp
    obtain rfl := Option.some.inj (hr'.symm.trans hr₁)
    rw [Run.isOver, hsusp₁, Bool.true_or]
  rcases run_cases hstep hr' with hsame | ⟨_, _, _, _, hth, -, -⟩ | ⟨r₀, tx, n, reply, hth, hn, rfl, -⟩
      | ⟨r₀, -, hth, hadv⟩
  · obtain rfl := Option.some.inj (hr.symm.trans hsame)
    exact h
  · obtain ⟨tx, alive, hth'⟩ := Sys.thread_of_run? hr
    rw [hth'] at hth
    cases (Thread.mk.inj (Option.some.inj hth)).1
  · obtain rfl := Option.some.inj (hr.symm.trans (Sys.run?_eq hth))
    exact hsuspended (Run.hasSuspended_of_next h hn)
  · obtain rfl := Option.some.inj (hr.symm.trans (Sys.run?_eq hth))
    by_cases hsusp : r.hasSuspended = true
    · exact hsuspended hsusp
    · unfold Run.isOver at h
      rw [Bool.or_eq_true] at h
      replace h := h.resolve_left hsusp
      rcases Run.advance_cases hadv with ⟨c, _, _, hc, hval, -⟩ | ⟨c, _, hc, -, -⟩ | ⟨rfl, -⟩
      · rw [hc] at h
        simp [hval, Resumption.value?] at h
      · rw [hc] at h
        cases h
      · rw [Run.isOver, Bool.or_eq_true]
        exact .inr rfl

/-! ## a living run holds the lease, or its calls are over -/

/-- a thread that is alive was so before -/
theorem Step.alive {l : Label Val} (hstep : Step d s l s') {t : Nat} {th th' : Thread Val}
    (hth : s.threads[t]? = some th) (hth' : s'.threads[t]? = some th') (halive : th'.alive = true) :
    th.alive = true := by
  have hlt := (List.getElem?_eq_some_iff.mp hth).1
  have hsame (h : s'.threads[t]? = s.threads[t]?) : th.alive = true := by
    rw [h, hth] at hth'
    rw [Option.some.inj hth']
    exact halive
  have hspawn (task : Task Val) : (s.spawn task).threads[t]? = s.threads[t]? := by
    rw [Sys.getElem?_spawn, if_neg (by omega)]
  -- the thread that takes the step was alive
  have hset {u : Nat} {task : Task Val} {tx : Option Tx} {new : Thread Val} {s₁ : Sys Val}
      (hold : s.threads[u]? = some ⟨task, tx, true⟩) (hs₁ : s₁.threads = s.threads)
      (hs' : s'.threads = (s₁.setThread u new).threads) : th.alive = true := by
    by_cases hu : t = u
    · subst hu
      rw [hold] at hth
      exact Option.some.inj hth ▸ rfl
    · refine hsame ?_
      rw [hs', Sys.getElem?_setThread (hs₁ ▸ hold), if_neg hu, hs₁]
  cases hstep with
  | tick n => exact hsame rfl
  | claim worker row => exact hsame (hspawn _)
  | request r => exact hsame (hspawn _)
  | heartbeat hth₀ hr => exact hsame (hspawn _)
  | begin hth₀ hq => exact hset hth₀ rfl rfl
  | execute hth₀ hrest hx => exact hset hth₀ rfl rfl
  | @commit u task x txn k hth₀ hrest hq =>
    exact hset hth₀ (show (s.publish u x).threads = s.threads from rfl) rfl
  | read hth₀ hq hreply => exact hset hth₀ (Sys.noteLoad_threads _) rfl
  | body result hth₀ hq => exact hset hth₀ rfl rfl
  | advance hth₀ hr => exact hset hth₀ rfl rfl
  | @crash u task tx hth₀ =>
    by_cases hu : t = u
    · subst hu
      rw [Sys.getElem?_setThread hth₀, if_pos rfl] at hth'
      rw [← Option.some.inj hth'] at halive
      cases halive
    · refine hsame ?_
      rw [Sys.getElem?_setThread hth₀, if_neg hu]

/-- a claim gives the lease to the run that it starts -/
theorem lease_of_claim (hs : Reachable d ok s) {t : Nat} {l : Label Val} {worker : String}
    {row : WorkflowRecord} {tx : Option Tx}
    {reply : (Call.transaction (.claimNextWorkflow worker row) : Call Val).Reply}
    (hth : s.threads[t]? = some ⟨.claiming worker row, tx, true⟩)
    (hans : Answers s t l (.transaction (.claimNextWorkflow worker row)) reply s') :
    s'.lease row.workflowId = some t := by
  cases hans with
  | @commit task x txn k hth' hrest =>
    rw [hth] at hth'
    obtain ⟨rfl, rfl, -⟩ := Thread.mk.inj (Option.some.inj hth')
    obtain ⟨-, k', hk'⟩ := txn_of_thread hs hth rfl
    have htxn : x.txn = .claimNextWorkflow worker row :=
      (Call.transaction.inj (Sigma.mk.inj (Option.some.inj hk')).1).symm
    have hok := tx_ok hs (Sys.tx?_eq hth)
    have hres := claim_ok hs (Sys.tx?_eq hth) htxn
    have hchanges := hok.changes hres
    rw [hok.executed_of_rest hrest hres, htxn] at hchanges
    obtain ⟨⟨w, u⟩, hu, heq⟩ := List.map_eq_singleton_iff.mp hchanges
    obtain ⟨rfl, hchange⟩ := Prod.mk.inj heq
    cases u <;> cases hchange
    show leaseAfter t s.lease x.updates row.workflowId = some t
    rw [hu]
    exact if_pos rfl
  | read hreply => cases hreply

theorem commit_run (hs : Reachable d ok s) {t : Nat} {r : Run Val} {x : Tx}
    (hth : s.threads[t]? = some ⟨.run r, some x, true⟩) (hstep : Step d s (.commit t) s') :
    ∃ k : (Call.transaction x.txn : Call Val).Reply → Run Val,
      r.next? = some ⟨.transaction x.txn, k⟩ ∧ x.rest = []
        ∧ s' = (s.publish t x).setThread t ⟨.run (k x.result), none, true⟩ := by
  obtain ⟨-, k, hk⟩ := txn_of_thread hs hth rfl
  obtain ⟨n, hn, hnk⟩ := Option.map_eq_some_iff.mp hk
  obtain ⟨q, k₀⟩ := n
  obtain ⟨rfl, hk₀⟩ := Sigma.mk.inj hnk
  obtain rfl := eq_of_heq hk₀
  cases hstep with
  | @commit _ task x' txn k' hth' hrest hq =>
    rw [hth] at hth'
    obtain ⟨rfl, hx, -⟩ := Thread.mk.inj (Option.some.inj hth')
    obtain rfl := Option.some.inj hx
    rw [hk] at hq
    obtain ⟨htxn, hk'⟩ := Sigma.mk.inj (Option.some.inj hq)
    obtain rfl := Call.transaction.inj htxn
    obtain rfl := eq_of_heq hk'
    exact ⟨k₀, hn, hrest, rfl⟩

/-- as `run_cases`; a run that stays the same has not committed -/
theorem run_step_cases (hs : Reachable d ok s) {l : Label Val} (hstep : Step d s l s') {t : Nat}
    {r' : Run Val} (hr : s'.run? t = some r') :
    (s.run? t = some r' ∧ l ≠ .commit t)
    ∨ (∃ worker row tx reply, s.threads[t]? = some ⟨.claiming worker row, tx, true⟩
        ∧ Answers s t l (.transaction (.claimNextWorkflow worker row)) reply s'
        ∧ r' = Run.claimed (d.workflowRegistry t) worker row)
    ∨ (∃ r tx n reply, s.threads[t]? = some ⟨.run r, tx, true⟩ ∧ r.next? = some n
        ∧ r' = n.2 reply ∧ Answers s t l n.1 reply s')
    ∨ (∃ r, l = .advance t ∧ s.threads[t]? = some ⟨.run r, none, true⟩
        ∧ r.advance d.toRuntime = some r') := by
  rcases run_cases hstep hr with hsame | h
  · by_cases hl : l = .commit t
    · subst hl
      obtain ⟨tx, alive, hth⟩ := Sys.thread_of_run? hsame
      have hopen : ∃ x, s.threads[t]? = some ⟨.run r', some x, true⟩ := by
        cases hstep with
        | @commit _ task x txn k hth₀ hrest hq =>
          rw [hth] at hth₀
          obtain ⟨rfl, rfl, rfl⟩ := Thread.mk.inj (Option.some.inj hth₀)
          exact ⟨x, hth⟩
      obtain ⟨x, hth⟩ := hopen
      obtain ⟨k, hn, hrest, rfl⟩ := commit_run hs hth hstep
      have hk : r' = k x.result := by
        have hr := hr
        rw [Sys.run?_eq (by rw [Sys.getElem?_setThread (s := s.publish t x) hth, if_pos rfl])] at hr
        exact (Option.some.inj hr).symm
      exact .inr (.inr (.inl ⟨r', some x, ⟨.transaction x.txn, k⟩, x.result, hth, hn, hk,
        .commit (k := fun reply => .run (k reply)) hth hrest⟩))
    · exact .inl ⟨hsame, hl⟩
  · exact .inr h

theorem Sys.leaseLive_of_leasesLive (h : s.leasesLive = true) {w : String} {t : Nat}
    (hlease : s.lease w = some t) (hrun : s.isRunning t = true) (hrow : (s.row? w).isSome = true) :
    s.leaseLive w = true := by
  obtain ⟨row, hrow⟩ := Option.isSome_iff_exists.mp hrow
  have hkey : row.workflowId = w := Rows.key_of_lookup hrow
  have hlive := List.all_eq_true.mp h row (Rows.mem_of_lookup hrow)
  rw [hkey, hlease, Option.all_some, hrun] at hlive
  rw [Sys.leaseLive, hrow, Option.any_some]
  exact hlive

/-- the step takes the lease of `w` from no run that goes on -/
def Sys.keepsLease (s : Sys Val) (w : String) (l : Label Val) : Prop :=
  ∀ t, s.lease w = some t → s.isRunning t = true → s.claims w l = false

theorem keepsLease_of_leasesLive (hs : Reachable d ok s) {l : Label Val} (hstep : Step d s l s')
    (h : s.leasesLive = true) (w : String) : s.keepsLease w l := by
  intro t hlease hrun
  obtain ⟨row, -, -, hrow, -⟩ := (lease_ok hs w).1 t hlease
  refine claim_expired hs hstep (Sys.leaseLive_of_leasesLive h hlease hrun ?_) hlease
  rw [hrow]
  rfl

theorem Txn.releases_of_Releases {w : String} {txn : Txn} (h : txn.Releases w) :
    txn.releases = true := by
  cases txn <;> first | rfl | cases h

/-- the runs of `w` that are alive -/
def Sys.LeaseOrOver (s : Sys Val) (w : String) : Prop := ∀ t r tx,
  s.threads[t]? = some ⟨.run r, tx, true⟩ → r.workflowId = w → r.isOver = true ∨ s.lease w = some t

section
variable {w : String}
  (hkeeps : ∀ s l s', Reachable d ok s → ok s l → Step d s l s' → s.keepsLease w l)
  (hstays : ∀ s t r, ok s (.advance t) → s.run? t = some r → r.workflowId = w →
    r.staysSuspended d.toRuntime s.clock = true)
include hkeeps hstays

omit hkeeps in
theorem now_of_isOver (hs : Reachable d ok s) {t : Nat} {r : Run Val} (hr : s.run? t = some r)
    (hw : r.workflowId = w) (h : r.isOver = true) {n : (q : Call Val) × (q.Reply → Run Val)}
    (hn : r.next? = some n) : n.1 = .now :=
  ((silent_ok hstays hs hr hw (Run.hasSuspended_of_next h hn)).next hn).1

/-- **A lease that a living run holds is given up by this run, if at all.** -/
theorem lease_kept_or_released (hs : Reachable d ok s) (ih : s.LeaseOrOver w) {l : Label Val}
    (hl : ok s l) (hstep : Step d s l s') {t : Nat} {r : Run Val} {tx : Option Tx}
    (hth : s.threads[t]? = some ⟨.run r, tx, true⟩) (hover : r.isOver = false)
    (hlease : s.lease w = some t) : s'.lease w = some t ∨ ∃ x, l = .commit t ∧ tx = some x ∧ x.result = .ok true
      ∧ x.txn.releases = true := by
  have hrunning : s.isRunning t = true := by
    have hnot : r.isEnded = false := by
      unfold Run.isEnded
      unfold Run.isOver at hover
      cases hc : r.code with
      | ended =>
        rw [hc, Bool.or_true] at hover
        cases hover
      | _ => rfl
    rw [Sys.isRunning, Sys.thread?, hth]
    show (!r.isEnded) = true
    rw [hnot]
    rfl
  obtain ⟨hkeep, -⟩ := lease_step hs hstep (hkeeps s l s' hs hl hstep t hlease hrunning) hlease
  by_cases hrel : s.releases w l = true
  · right
    cases hstep with
    | @commit u task x txn k hth₀ hrest hq =>
      have hx := Sys.tx?_eq hth₀
      obtain ⟨v, hv, hvrel⟩ := (Sys.commits_iff hx).mp hrel
      obtain ⟨⟨r₀, rfl, hw₀⟩, htxn⟩ := releases_origin hs hth₀ hv hvrel
      obtain ⟨hres, -⟩ := (tx_ok hs hx).mem_updates hv
      -- the run that gives it up holds it, for it has a call left
      have hholder : s.lease w = some u := by
        refine (ih u r₀ _ hth₀ hw₀).resolve_left fun hover₀ => ?_
        obtain ⟨-, k', hk'⟩ := txn_of_thread hs hth₀ rfl
        obtain ⟨n, hn, hnk⟩ := Option.map_eq_some_iff.mp hk'
        have hnow := now_of_isOver hstays hs (Sys.run?_eq hth₀) hw₀ hover₀ hn
        rw [congrArg Sigma.fst hnk] at hnow
        cases hnow
      obtain rfl := Option.some.inj (hlease.symm.trans hholder)
      obtain ⟨-, rfl, -⟩ := Thread.mk.inj (Option.some.inj (hth.symm.trans hth₀))
      exact ⟨x, rfl, rfl, hres, Txn.releases_of_Releases htxn⟩
    | _ => cases hrel
  · exact .inl (hkeep (Bool.not_eq_true _ ▸ hrel))

/-- **A living run of `w` holds the lease of `w`, or its calls are over.** -/
theorem lease_or_over (hs : Reachable d ok s) : s.LeaseOrOver w := by
  refine Reach.invariant_of_reach (I := (Sys.LeaseOrOver · w)) (by simp [Sys.LeaseOrOver, Sys.initial])
    ?_ hs
  intro s l s' hs ih hl hstep t r' tx' hth' hw'
  have hstep := Step.of_step hstep
  have hr' := Sys.run?_eq hth'
  -- a run that was there before
  have hold {r : Run Val} {tx : Option Tx} {alive : Bool}
      (hth : s.threads[t]? = some ⟨.run r, tx, alive⟩) : r'.isOver = true ∨ s'.lease w = some t := by
    obtain rfl : alive = true := hstep.alive hth hth' rfl
    have hr := Sys.run?_eq hth
    obtain ⟨r₁, tx₁, alive₁, hth₁, hw, -⟩ := Sys.Runs.step hstep ⟨r, tx, true, hth, rfl, rfl⟩
    obtain rfl := Option.some.inj (hr'.symm.trans (Sys.run?_eq hth₁))
    replace hw := hw.symm.trans hw'
    cases hover : r.isOver with
    | true => exact .inl (isOver_step hs hstep hr hr' hover)
    | false =>
      have hlease := (ih t r tx hth hw).resolve_left (by rw [hover]; exact Bool.false_ne_true)
      rcases lease_kept_or_released hkeeps hstays hs ih hl hstep hth hover hlease with h
          | ⟨x, rfl, rfl, hres, hrel⟩
      · exact .inr h
      · obtain ⟨k, hn, -, rfl⟩ := commit_run hs hth hstep
        rw [Sys.getElem?_setThread (s := s.publish t x) hth, if_pos rfl] at hth'
        obtain ⟨hrun, -⟩ := Thread.mk.inj (Option.some.inj hth')
        obtain rfl := Task.run.inj hrun
        exact .inl (((leavesLast_ok hs hr).next hn x.result).1 ⟨hrel, hres⟩)
  rcases run_cases hstep hr' with hsame | ⟨worker, row, tx, reply, hth, hans, rfl⟩
      | ⟨r, tx, n, reply, hth, -, -, -⟩ | ⟨r, -, hth, -⟩
  · obtain ⟨tx, alive, hth⟩ := Sys.thread_of_run? hsame
    exact hold hth
  · exact .inr (hw' ▸ lease_of_claim hs hth hans)
  · exact hold hth
  · exact hold hth

theorem lease_of_txn (hs : Reachable d ok s) {t : Nat} {r : Run Val} {x : Tx}
    (hth : s.threads[t]? = some ⟨.run r, some x, true⟩) (hw : r.workflowId = w) :
    s.lease w = some t := by
  refine (lease_or_over hkeeps hstays hs t r _ hth hw).resolve_left fun hover => ?_
  obtain ⟨-, k, hk⟩ := txn_of_thread hs hth rfl
  obtain ⟨n, hn, hnk⟩ := Option.map_eq_some_iff.mp hk
  have hnow := now_of_isOver hstays hs (Sys.run?_eq hth) hw hover hn
  rw [congrArg Sigma.fst hnk] at hnow
  cases hnow

/-! ## the steps in the log -/

omit hkeeps hstays in
/-- a step event is written by a run of the workflow: as such, or with the child that it spawns -/
theorem Task.Issues.step_of_entry {L : Loaded} {task : Task Val} {txn : Txn} (h : task.Issues L txn)
    {e : Entry} (he : e ∈ txn.statements.filterMap Stmt.event?) (hstep : e.isStep = true) :
    ∃ r, task = .run r ∧ r.workflowId = e.workflowId
      ∧ ((∃ payload, txn = .insertEvent e.workflowId e.stepIndex e.stepName e.eventType payload)
        ∨ ∃ (c name : String) (input : Except PyExc Json) (i : Nat), e.stepIndex = i
          ∧ e.eventType = .childStarted ∧ txn = .createChildWorkflow e.workflowId c name input i) := by
  have hnot {i : Int} (hi : e.stepIndex = i) (hneg : i = -1) : False := by
    rw [Entry.isStep, hi, hneg] at hstep
    exact absurd hstep (by decide)
  rcases h.cases with ⟨worker, row, -, rfl⟩ | ⟨r, htask, hrun⟩ | ⟨id, name, input, c, -, rfl⟩
      | ⟨w, T, payload, c, -, rfl⟩ | ⟨w, c, -, rfl⟩
  · simp [Txn.statements, Stmt.event?] at he
  · cases txn with
    | insertEvent w j name ty payload =>
      obtain ⟨p, -, rfl⟩ := mem_insertInto he
      exact ⟨r, htask, hrun.1.symm, .inl ⟨payload, rfl⟩⟩
    | completeWorkflow w result parentInfo =>
      obtain ⟨o, -, rfl | ⟨parent, -, rfl⟩⟩ := mem_writeTerminal he <;> exact (hnot rfl rfl).elim
    | failWorkflow w message parentInfo =>
      obtain ⟨o, -, rfl | ⟨parent, -, rfl⟩⟩ := mem_writeTerminal he <;> exact (hnot rfl rfl).elim
    | createChildWorkflow p c name input j =>
      simp only [Txn.statements, List.filterMap_append, List.mem_append] at he
      rcases he with ((he | he) | he) | he
      · simp [Stmt.event?] at he
      · obtain ⟨q, -, rfl⟩ := mem_insertInto he
        exact (hnot rfl rfl).elim
      · obtain ⟨q, -, rfl⟩ := mem_insertInto he
        exact ⟨r, htask, hrun.1.symm, .inr ⟨c, name, input, j, rfl, rfl, rfl⟩⟩
      · simp [Stmt.event?] at he
    | markWorkflowWaiting w wait => simp [Txn.statements, Stmt.event?] at he
    | updateWorkflowRunAt w time => simp [Txn.statements, Stmt.event?] at he
    | _ => cases hrun
  · simp only [Txn.statements, List.filterMap_append, List.mem_append] at he
    rcases he with he | he
    · simp [Stmt.event?] at he
    · obtain ⟨p, -, rfl⟩ := mem_insertInto he
      exact (hnot rfl rfl).elim
  · simp only [Txn.statements, List.filterMap_append, List.mem_append] at he
    rcases he with he | he
    · obtain ⟨p, -, rfl⟩ := mem_insertInto he
      exact (hnot rfl rfl).elim
    · simp [Stmt.event?] at he
  · simp [Txn.statements, Stmt.event?] at he

theorem lease_of_inserted (hs : Reachable d ok s) {t : Nat} {x : Tx} (hx : s.tx? t = some x)
    {e : EventRecord} (he : e ∈ x.inserted) (hw : e.workflowId = w)
    (hstep : e.toEntry.isStep = true) : s.lease w = some t := by
  obtain ⟨task, alive, hth⟩ := Sys.tx?_eq_some hx
  obtain rfl : alive = true := (txn_of_thread hs hth rfl).1
  obtain ⟨r, rfl, hr, -⟩ := (issues_of_thread hs hth rfl).step_of_entry
    ((tx_ok hs hx).mem_entries he) hstep
  exact lease_of_txn hkeeps hstays hs hth (hr.trans hw)

theorem steps_newer (hs : Reachable d ok s) {t : Nat} {x : Tx} (hx : s.tx? t = some x)
    {e : EventRecord} (he : e ∈ x.inserted) (hw : e.workflowId = w)
    (hstep : e.toEntry.isStep = true) :
    ∀ e' ∈ s.events, e'.workflowId = w ∧ e'.toEntry.isStep = true → e'.eventId < e.eventId := by
  refine Reach.invariant_of_reach (I := fun s : Sys Val => ∀ t x, s.tx? t = some x →
    ∀ e ∈ x.inserted, e.workflowId = w → e.toEntry.isStep = true → ∀ e' ∈ s.events,
      e'.workflowId = w ∧ e'.toEntry.isStep = true → e'.eventId < e.eventId)
    ?_ ?_ hs t x hx e he hw hstep
  · intro t x hx
    rw [Sys.initial_tx?] at hx
    cases hx
  · intro s l s' hr ih _ hl t x hx e he hw hstep
    refine Step.newer (ids_ok hr) (Step.of_step hl) hx he
      (fun x₀ hx₀ he₀ => ih t x₀ hx₀ e he₀ hw hstep) ?_
    -- two transactions with steps of `w` would both be under the lease
    rintro u y x₀ - hut hy hx₀ he₀ e' he' ⟨hw', hstep'⟩
    have ht := lease_of_inserted hkeeps hstays hr hx₀ he₀ hw hstep
    have hu := lease_of_inserted hkeeps hstays hr hy he' hw' hstep'
    exact hut (Option.some.inj (hu.symm.trans ht))

omit hkeeps hstays in
theorem stepEntries_eq (history : List EventRecord) :
    stepEntries history = (history.filter fun e => e.toEntry.isStep).map EventRecord.toEntry := by
  rw [stepEntries, List.filter_map]
  rfl

/-- **A commit appends its steps to the log.** -/
theorem steps_publish (hs : Reachable d ok s) {t : Nat} {x : Tx} (hx : s.tx? t = some x) :
    stepEntries ((s.publish t x).history w) = stepEntries (s.history w)
      ++ (x.inserted.map EventRecord.toEntry).filter fun e => e.workflowId == w && e.isStep := by
  rw [stepEntries_eq, stepEntries_eq, Sys.filter_publish (ids_ok hs) hx, List.map_append,
    List.filter_map]
  · rfl
  · intro a ha haw hastep b hb hbstep
    obtain ⟨hb, hbw⟩ := Sys.mem_history.mp hb
    exact steps_newer hkeeps hstays hs hx ha haw hastep b hb ⟨hbw, hbstep⟩

/-- **While a run holds the lease nobody else writes to the steps.** -/
theorem steps_frame (hs : Reachable d ok s) {l : Label Val} (hstep : Step d s l s') {t : Nat}
    (hlease : s.lease w = some t) (hne : l ≠ .commit t) :
    stepEntries (s'.history w) = stepEntries (s.history w) := by
  rcases hstep.tables_cases with htab | ⟨u, task, x, txn, k, rfl, hth, -, -, rfl⟩
  · rw [htab.history]
  · have hx := Sys.tx?_eq hth
    rw [Sys.setThread_history, steps_publish hkeeps hstays hs hx, List.filter_eq_nil_iff.mpr,
      List.append_nil]
    intro e he
    obtain ⟨e₀, he₀, rfl⟩ := List.mem_map.mp he
    rw [Bool.and_eq_true, beq_iff_eq]
    rintro ⟨hw, hisStep⟩
    have hu := lease_of_inserted hkeeps hstays hs hx he₀ hw hisStep
    exact hne (by rw [Option.some.inj (hlease.symm.trans hu)])

theorem steps_commit (hs : Reachable d ok s) {t : Nat} {x : Tx} (hx : s.tx? t = some x)
    (hrest : x.rest = []) :
    (x.result = .ok true → stepEntries ((s.publish t x).history w)
        = stepEntries (s.history w) ++ x.txn.stepEntries w)
      ∧ (x.result ≠ .ok true →
        stepEntries ((s.publish t x).history w) = stepEntries (s.history w)) := by
  have hxok := tx_ok hs hx
  rw [steps_publish hkeeps hstays hs hx]
  constructor
  · intro hres
    rw [hxok.entries hres, hxok.executed_of_rest hrest hres]
    rfl
  · intro hres
    rw [(hxok.quiet hres).2.1]
    exact List.append_nil _

/-! ## what a living run sees of a step -/

/-- **A run that has calls left holds the lease before and after the steps of the others, and its
steps in the log are left alone.** -/
theorem living_step (hs : Reachable d ok s) {l : Label Val} (hl : ok s l) (hstep : Step d s l s')
    {t : Nat} {r : Run Val} {tx : Option Tx} (hth : s.threads[t]? = some ⟨.run r, tx, true⟩)
    (hw : r.workflowId = w) (hover : r.isOver = false) (hne : l ≠ .commit t) :
    s.lease w = some t ∧ s'.lease w = some t
      ∧ stepEntries (s'.history w) = stepEntries (s.history w) := by
  have hlease := (lease_or_over hkeeps hstays hs t r tx hth hw).resolve_left (by simp [hover])
  refine ⟨hlease, ?_, steps_frame hkeeps hstays hs hstep hlease hne⟩
  refine (lease_kept_or_released hkeeps hstays hs (lease_or_over hkeeps hstays hs) hl hstep hth
    hover hlease).resolve_right ?_
  rintro ⟨x, rfl, -⟩
  exact hne rfl

/-- the commit of such a run -/
theorem living_commit (hs : Reachable d ok s) {t : Nat} (hl : ok s (.commit t))
    (hstep : Step d s (.commit t) s') {r : Run Val} {x : Tx}
    (hth : s.threads[t]? = some ⟨.run r, some x, true⟩) (hw : r.workflowId = w)
    (hover : r.isOver = false) :
    s.lease w = some t
      ∧ ((x.result = .ok true → x.txn.releases = false) → s'.lease w = some t)
      ∧ (x.result = .ok true →
        stepEntries (s'.history w) = stepEntries (s.history w) ++ x.txn.stepEntries w)
      ∧ (x.result ≠ .ok true → stepEntries (s'.history w) = stepEntries (s.history w)) := by
  have hx := Sys.tx?_eq hth
  have hlease := (lease_or_over hkeeps hstays hs t r _ hth hw).resolve_left (by simp [hover])
  obtain ⟨k, -, hrest, hs'⟩ := commit_run hs hth hstep
  refine ⟨hlease, fun hkeep => ?_, ?_⟩
  · refine (lease_kept_or_released hkeeps hstays hs (lease_or_over hkeeps hstays hs) hl hstep hth
      hover hlease).resolve_right ?_
    rintro ⟨y, -, hy, hres, hrel⟩
    obtain rfl := Option.some.inj hy
    rw [hkeep hres] at hrel
    cases hrel
  · rw [hs', Sys.setThread_history]
    exact steps_commit hkeeps hstays hs hx hrest

end

end

/-! ## one run at a time -/

section
variable {Val : Type} {d : Deployment Val} {s : Sys Val}

/-- **Only one run of a workflow works.**  A living run that has a call left other than reading the
clock has locked the row, and every other living run of the workflow is done. -/
theorem one_run_works
    (hs : Reachable d (fun s l => s.leasesLive && s.staysSuspended d l) s) {t : Nat} {r : Run Val}
    {tx : Option Tx} (hth : s.threads[t]? = some ⟨.run r, tx, true⟩)
    {n : (q : Call Val) × (q.Reply → Run Val)} (hn : r.next? = some n) (hcall : n.1 ≠ .now) :
    (∃ row, s.row? r.workflowId = some row ∧ row.lockedBy = some r.worker)
      ∧ ∀ u r' tx', u ≠ t → s.threads[u]? = some ⟨.run r', tx', true⟩ →
        r'.workflowId = r.workflowId → tx' = none ∧ ∀ n', r'.next? = some n' → n'.1 = .now := by
  have hkeeps (s : Sys Val) (l : Label Val) (s' : Sys Val)
      (hs : Reachable d (fun s l => s.leasesLive && s.staysSuspended d l) s)
      (h : (s.leasesLive && s.staysSuspended d l) = true) (hstep : Step d s l s') :
      s.keepsLease r.workflowId l :=
    keepsLease_of_leasesLive hs hstep (Bool.and_eq_true_iff.mp h).1 r.workflowId
  have hstays (s : Sys Val) (t : Nat) (r' : Run Val)
      (h : (s.leasesLive && s.staysSuspended d (.advance t)) = true) (hr : s.run? t = some r')
      (_ : r'.workflowId = r.workflowId) : r'.staysSuspended d.toRuntime s.clock = true :=
    Sys.staysSuspended_advance (Bool.and_eq_true_iff.mp h).2 hr
  have hholds := lease_or_over hkeeps hstays hs
  have hlease : s.lease r.workflowId = some t := by
    refine (hholds t r tx hth rfl).resolve_left fun hover => hcall ?_
    exact now_of_isOver hstays hs (Sys.run?_eq hth) rfl hover hn
  refine ⟨?_, fun u r' tx' hne hth' hw' => ?_⟩
  · obtain ⟨row, worker, -, hrow, hby, -, r₁, tx₁, alive₁, hth₁, -, hworker⟩ :=
      (lease_ok hs r.workflowId).1 t hlease
    obtain ⟨hr, -, -⟩ := Thread.mk.inj (Option.some.inj (hth₁.symm.trans hth))
    obtain rfl := Task.run.inj hr
    exact ⟨row, hrow, hby.trans (congrArg some hworker.symm)⟩
  · have hnot : s.lease r.workflowId ≠ some u := by
      rw [hlease]
      intro h
      exact hne (Option.some.inj h).symm
    have hover := (hholds u r' tx' hth' hw').resolve_right hnot
    refine ⟨?_, fun n' hn' => now_of_isOver hstays hs (Sys.run?_eq hth') hw' hover hn'⟩
    cases tx' with
    | none => rfl
    | some x => exact (hnot (lease_of_txn hkeeps hstays hs hth' hw')).elim

end

/-- worker A's run has gone to sleep and is still there when B claims the workflow -/
def takesOver : List (Label Json) :=
  [.request (.startWorkflow .w "n" (.obj []))] ++ transact 0 3
    ++ [.claim "A" (newRow "w" "n" none 0)] ++ transact 1 2
    ++ [.read 1, .advance 1, .read 1] ++ transact 1 2 ++ [.read 1] ++ transact 1 1
    ++ [.claim "B" (newRow "w" "n" none 0)] ++ transact 2 2

/-- the living run of thread `t` is about to load the history of `w` -/
def Sys.loadsNext (s : Sys Json) (t : Nat) : Bool :=
  match s.thread? t with
  | some ⟨.run r, _, _⟩ => r.workflowId == "w" && match r.next? with
    | some ⟨.loadEventHistory _, _⟩ => true
    | _ => false
  | _ => false

/-- thread `t` is a living run of `w` -/
def Sys.livesOn (s : Sys Json) (t : Nat) : Bool :=
  match s.thread? t with
  | some ⟨.run r, _, _⟩ => r.workflowId == "w"
  | _ => false

theorem one_run_works_once : ∃ (s : Sys Json) (r r' : Run Json) (tx tx' : Option Tx),
    s.threads[2]? = some ⟨.run r, tx, true⟩ ∧ s.threads[1]? = some ⟨.run r', tx', true⟩
      ∧ (∃ row, s.row? r.workflowId = some row ∧ row.lockedBy = some r.worker) ∧ tx' = none := by
  have hrun : (follow (Sys.step sleeps) (fun s l => s.leasesLive && s.staysSuspended sleeps l)
      Sys.initial takesOver).any (fun s => s.loadsNext 2 && s.livesOn 1) = true := by
    decide +kernel
  obtain ⟨s, hs, h⟩ := Reach.exists_of_follow _ hrun
  obtain ⟨hloads, hlives⟩ := Bool.and_eq_true_iff.mp h
  unfold Sys.loadsNext at hloads
  unfold Sys.livesOn at hlives
  split at hloads
  · rename_i r tx alive hth
    obtain ⟨hth, rfl⟩ := Sys.thread?_eq_some hth
    obtain ⟨hw, hloads⟩ := Bool.and_eq_true_iff.mp hloads
    split at hloads
    · rename_i w k hn
      split at hlives
      · rename_i r' tx' alive' hth'
        obtain ⟨hth', rfl⟩ := Sys.thread?_eq_some hth'
        obtain ⟨hrow, hothers⟩ := one_run_works hs hth hn (by intro h; cases h)
        have hw' := (beq_iff_eq.mp hlives).trans (beq_iff_eq.mp hw).symm
        exact ⟨s, r, r', tx, tx', hth, hth', hrow, (hothers 1 r' tx' (by decide) hth' hw').1⟩
      · cases hlives
    · cases hloads
  · cases hloads

end TemporalLight
