import TemporalLight.Ownership
import TemporalLight.Suspensions
import TemporalLight.Terminal
import TemporalLight.Wakeup

/-!
# Every finished run settles its workflow

A run that ends has to leave the row of its workflow in order: over, WAITING, or with a time to run
at, and in every case without a lock.  `_run_workflow` relies on the step that raised
`WorkflowSuspended` for it, or else records the outcome of the workflow function; what `run_workflow`
itself raises is only logged.

* `settles_executeStep`  a step that suspends has released the lease
* `settles_finishRun`    so has every other end, if its result has a payload
* `finished_settled`     every finished run has released its lease, under these conditions
-/

namespace TemporalLight
open Runs Resumption

section
variable {Val α β : Type}

/-! ## what one run has achieved -/

structure Progress where
  /-- the run has released the lease -/
  released : Prop
  /-- the answers that are in the log -/
  answered : Wait → Prop

/-- progress is never lost -/
structure Progress.Le (v v' : Progress) : Prop where
  released : v.released → v'.released
  answered : ∀ wait, v.answered wait → v'.answered wait

theorem Progress.Le.refl (v : Progress) : v.Le v := ⟨id, fun _ => id⟩

theorem Progress.Le.trans {v v' v'' : Progress} (h : v.Le v') (h' : v'.Le v'') : v.Le v'' :=
  ⟨h'.released ∘ h.released, fun wait => h'.answered wait ∘ h.answered wait⟩

def Txn.HasBadPayload (txn : Txn) (error : PyExc) : Prop :=
  ∃ w i n ty, Stmt.insertEvent w i n ty (.error error) ∈ txn.statements

/-- what the run `w` knows after a reply: transactions raise only by their payloads, one that
releases the lease has done so when it returns, and one that refuses to wait has seen the answer; no
text of a body's exception suspends -/
def Call.Gives (w : String) (v : Progress) : (q : Call Val) → q.Reply → Prop
  | .transaction txn, result => match (result : Except PyExc Bool) with
    | .error error => txn.HasBadPayload error
    | .ok true => txn.Releases w → v.released
    | .ok false => (∃ stmt ∈ txn.statements, stmt.mayReturn = true)
      ∧ ∀ wait, txn = .markWorkflowWaiting w wait → v.answered wait
  | .loadEventHistory w', (history : List EventRecord) =>
    w' = w → ∀ wait, v.answered wait → (history.find? wait.isAnswer).isSome = true
  | .runActivityBody _ _ _ _, result => ∀ error, result = .error error → error.textSuspends = false
  | _, _ => True

def settleRules (w : String) : Rules (Call Val) Call.Reply Progress where
  rely := Progress.Le
  ask _ _ := True
  answer q reply v v' := v.Le v' ∧ q.Gives w v' reply
  keep _ _ := True
  rely_refl := .refl
  rely_trans := .trans

variable {w : String} {v : Progress}

theorem released_stays {c : Resumption (Call Val) Call.Reply α} (h : v.released) :
    wp (settleRules w) c (fun _ v' => v'.released) v := by
  induction c generalizing v with
  | pure a => exact fun v' hv => hv.released h
  | call q k ih =>
    exact fun v₁ hv₁ => ⟨trivial, fun reply v₂ hans =>
      ⟨trivial, ih reply (hans.1.released (hv₁.released h))⟩⟩

variable (w) in
/-- the code ends in `Q`, or raises; if it raises a suspension, the lease is released -/
def Settles (c : Engine Val α) (Q : α → Progress → Prop) (v : Progress) : Prop :=
  wp (settleRules w) c.run (fun r v' => match r with
    | .ok a => Q a v'
    | .error e => e.isSuspension = true → v'.released) v

theorem Settles.pure {Q : α → Progress → Prop} {a : α} (h : ∀ v', v.Le v' → Q a v') :
    Settles w (pure a : Engine Val α) Q v := h

theorem Settles.raise {Q : α → Progress → Prop} {e : PyExc} (h : e.isSuspension = true → v.released) :
    Settles w (throw e : Engine Val α) Q v :=
  fun _ hv he => hv.released (h he)

theorem settles_result {r : Except PyExc α} (h : ∀ e, r = .error e → e.isSuspension = false) :
    Settles w (ExceptT.mk (.pure r) : Engine Val α) (fun a _ => r = .ok a) v := by
  cases r with
  | ok a => exact Settles.pure fun _ _ => rfl
  | error e => exact Settles.raise fun he => by rw [h e rfl] at he; cases he

theorem Settles.bind {c : Engine Val α} {f : α → Engine Val β} {Q : α → Progress → Prop}
    {Q' : β → Progress → Prop} (hc : Settles w c Q v)
    (hf : ∀ a v', Q a v' → Settles w (f a) Q' v') : Settles w (c >>= f) Q' v := by
  refine wp_run_bind (wp_mono (fun r v' hr => ?_) hc)
  cases r with
  | ok a => exact hf a v' hr
  | error e => exact Settles.raise hr

theorem Settles.call {Q : α → Progress → Prop} {q : Call Val} {k : q.Reply → Except PyExc α}
    (h : ∀ reply v', v.Le v' → q.Gives w v' reply → match k reply with
      | .ok a => ∀ v'', v'.Le v'' → Q a v''
      | .error e => e.isSuspension = true → v'.released) :
    Settles w (ExceptT.mk (.call q fun reply => .pure (k reply))) Q v := by
  intro v₁ hv₁
  refine ⟨trivial, fun reply v₂ hans => ⟨trivial, fun v₃ hv₃ => ?_⟩⟩
  have h := h reply v₂ (hv₁.trans hans.1) hans.2
  cases hk : k reply with
  | ok a =>
    rw [hk] at h
    exact h v₃ hv₃
  | error e =>
    rw [hk] at h
    exact fun he => hv₃.released (h he)

theorem settles_now : Settles w (now : Engine Val Int) (fun _ _ => True) v :=
  Settles.call (k := .ok) fun _ _ _ _ _ _ => trivial

theorem settles_pgNotify (w' : String) :
    Settles w (pgNotify w' : Engine Val Unit) (fun _ _ => True) v :=
  Settles.call (k := .ok) fun _ _ _ _ _ _ => trivial

theorem settles_transaction {txn : Txn} {Q : Bool → Progress → Prop}
    (hpay : ∀ error, txn.HasBadPayload error → error.isSuspension = false)
    (h : ∀ b v', (Call.transaction txn : Call Val).Gives w v' (.ok b) → ∀ v'', v'.Le v'' → Q b v'') :
    Settles w (transaction txn : Engine Val Bool) Q v := by
  refine Settles.call (q := .transaction txn) (k := id) fun reply v' hv hgives => ?_
  cases reply with
  | error e => exact fun he => by simp [hpay e hgives] at he
  | ok b => exact h b v' hgives

theorem badPayload_insertEvent {w' n : String} {i : Int} {ty : EventType}
    {payload : Except PyExc Json} {error : PyExc}
    (h : (Txn.insertEvent w' i n ty payload).HasBadPayload error) : payload = .error error := by
  obtain ⟨w₁, i₁, n₁, ty₁, hmem⟩ := h
  simp only [Txn.statements, insertInto, List.mem_cons, List.not_mem_nil, or_false,
    reduceCtorEq] at hmem
  cases hmem
  rfl

theorem settles_writeEvent {w' n : String} {i : Int} {ty : EventType} {payload : Except PyExc Json}
    (h : ∀ error, payload = .error error → error.isSuspension = false) :
    Settles w (writeEvent w' i n ty payload : Engine Val Unit) (fun _ _ => True) v := by
  have hinsert : Settles w (transaction (.insertEvent w' i n ty payload) : Engine Val Bool)
      (fun _ _ => True) v :=
    settles_transaction (fun error herr => h error (badPayload_insertEvent herr))
      fun _ _ _ _ _ => trivial
  exact hinsert.bind fun _ v' _ => settles_pgNotify w'

theorem wp_release {txn : Txn} (hrel : txn.Releases w) (hpay : ∀ error, ¬txn.HasBadPayload error)
    (hret : ∀ stmt ∈ txn.statements, stmt.mayReturn = false) :
    wp (settleRules w) (transaction txn : Engine Val Bool).run (fun _ v' => v'.released) v := by
  intro v₁ _
  refine ⟨trivial, fun reply v₂ hans => ⟨trivial, fun v₃ hv₃ => hv₃.released ?_⟩⟩
  have hgives : Call.Gives w v₂ (.transaction txn) reply := hans.2
  match (reply : Except PyExc Bool), hgives with
  | .error e, hgives => exact absurd hgives (hpay e)
  | .ok true, hgives => exact hgives hrel
  | .ok false, ⟨⟨stmt, hmem, hmay⟩, _⟩ =>
    rw [hret stmt hmem] at hmay
    cases hmay

theorem settles_release {txn : Txn} (hrel : txn.Releases w) (hpay : ∀ error, ¬txn.HasBadPayload error)
    (hret : ∀ stmt ∈ txn.statements, stmt.mayReturn = false) :
    Settles w (transaction txn : Engine Val Bool) (fun _ v' => v'.released) v := by
  refine wp_mono (fun r v' h => ?_) (wp_release hrel hpay hret)
  cases r with
  | ok b => exact h
  | error e => exact fun _ => h

/-! ## the awaits -/

/-- neither `json.dumps` nor `!=` nor `repr` raises `WorkflowSuspended` on the arguments -/
structure JsonSafe.Converts (text : Json → String) (input : JsonSafe) : Prop where
  dumps : ∀ error, input.dumps = .error error → error.isSuspension = false
  differs : ∀ recorded error, input.differs recorded = .error error → error.isSuspension = false
  repr : ∀ error, input.repr text = .error error → error.isSuspension = false

/-- no conversion of the step raises `WorkflowSuspended` itself -/
def Action.Converts (rt : Runtime Val) : Action Val → Prop
  | .activity f args => (∀ error, args = .error error → error.isSuspension = false)
      ∧ (∀ input, args = .ok input → input.Converts rt.repr)
      ∧ (∀ recorded error, f.fromJsonSafe recorded = .error error → error.isSuspension = false)
      ∧ ∀ value error, rt.dumps value = .error error → error.isSuspension = false
  | .spawnChild _ kwargs => ∀ error, kwargs = .error error → error.isSuspension = false
  | _ => True

theorem not_badPayload_update {w' : String} {change : Change} {error : PyExc} {txn : Txn}
    (h : txn.statements = [.update w' change]) : ¬txn.HasBadPayload error := by
  rintro ⟨w₁, i, n, ty, hmem⟩
  rw [h] at hmem
  simp at hmem

theorem settles_updateRunAt (time : Int) :
    Settles w (transaction (.updateWorkflowRunAt w time) : Engine Val Bool)
      (fun _ v' => v'.released) v :=
  settles_release rfl (fun _ => not_badPayload_update rfl) (by simp [Txn.statements, Stmt.mayReturn])

theorem badPayload_terminal {w' : String} {ty : EventType} {outcome : Except PyExc (String × Json)}
    {status : WorkflowStatus} {parentInfo : Option ParentInfo} {childStatus : String} {i : Int}
    {w₁ n : String} {ty₁ : EventType} {error : PyExc}
    (h : Stmt.insertEvent w₁ i n ty₁ (.error error)
      ∈ writeTerminalWorkflowEvent w' ty outcome status parentInfo childStatus) :
    outcome = .error error := by
  cases outcome with
  | error e =>
    cases parentInfo <;> simp [writeTerminalWorkflowEvent, insertInto, Except.map] at h
    · rw [h.2.2.2.2]
    · rcases h with h | h <;> rw [h.2.2.2.2]
  | ok o => cases parentInfo <;> simp [writeTerminalWorkflowEvent, insertInto, Except.map] at h

theorem mayReturn_terminal {w' : String} {ty : EventType} {outcome : Except PyExc (String × Json)}
    {status : WorkflowStatus} {parentInfo : Option ParentInfo} {childStatus : String} :
    ∀ stmt ∈ writeTerminalWorkflowEvent w' ty outcome status parentInfo childStatus,
      stmt.mayReturn = false := by
  cases parentInfo <;> simp [writeTerminalWorkflowEvent, insertInto, Stmt.mayReturn]

theorem wp_failWorkflow (message : String) (parentInfo : Option ParentInfo) :
    wp (settleRules w) (transaction (.failWorkflow w message parentInfo) : Engine Val Bool).run
      (fun _ v' => v'.released) v :=
  wp_release rfl (fun _ ⟨_, _, _, _, hmem⟩ => nomatch badPayload_terminal hmem) mayReturn_terminal

theorem settles_failWorkflow (message : String) (parentInfo : Option ParentInfo) :
    Settles w (transaction (.failWorkflow w message parentInfo) : Engine Val Bool)
      (fun _ v' => v'.released) v :=
  settles_release rfl (fun _ ⟨_, _, _, _, hmem⟩ => nomatch badPayload_terminal hmem)
    mayReturn_terminal

variable {rt : Runtime Val} {ctx : WorkflowContext}

theorem settles_handleActivityFailure (hw : ctx.workflowId = w) (i : Nat) (f : ActivityFunction Val)
    (n : Nat) {error : PyExc} (htext : error.textSuspends = false) (duration : Int) :
    Settles w (handleActivityFailure rt ctx i f n error duration) (fun _ v' => v'.released) v := by
  unfold handleActivityFailure
  rw [hw]
  refine (settles_result fun raised hraised => ?_).bind fun errorMessage v _ => ?_
  · obtain ⟨typeName, rfl⟩ := PyExc.textless_of_str hraised
    exact htext
  refine (settles_writeEvent (by simp)).bind fun _ v _ => ?_
  show Settles w (if _ then _ else _) _ v
  split
  · refine settles_now.bind fun time v _ => ?_
    refine (settles_result fun overflow hrange => ?_).bind fun retryAt v _ => ?_
    · obtain ⟨message, rfl⟩ := timeAfter_error hrange
      rfl
    exact (settles_updateRunAt _).bind fun _ v h => Settles.pure fun v' hv => hv.released h
  · exact (settles_failWorkflow _ _).bind fun _ v h => Settles.pure fun v' hv => hv.released h

theorem settles_runAttempt (hw : ctx.workflowId = w) (i : Nat) (f : ActivityFunction Val)
    (args : JsonSafe)
    (hdumps : ∀ value error, rt.dumps value = .error error → error.isSuspension = false) :
    Settles w (runAttempt rt ctx i f args) (fun _ _ => True) v := by
  unfold runAttempt
  refine settles_now.bind fun startedAt v _ => ?_
  have hbody : Settles w (runActivityBody ctx.workflowId i f args : Engine Val _)
      (fun result _ => ∀ error, result = .error error → error.textSuspends = false) v :=
    Settles.call (k := .ok) fun _ _ _ hgives _ _ => hgives
  refine hbody.bind fun result v htext => ?_
  cases result with
  | error executionError =>
    show Settles w (if _ then _ else _) _ v
    split
    · exact settles_now.bind fun endedAt v _ =>
        (settles_handleActivityFailure hw i f _ (htext _ rfl) _).bind fun _ v h =>
          Settles.raise fun _ => h
    · rename_i hexc
      refine Settles.raise fun hsusp => ?_
      cases executionError with
      | workflowSuspended message => exact absurd rfl hexc
      | _ => cases hsusp
  | ok result =>
    refine settles_now.bind fun endedAt v _ => ?_
    refine (settles_writeEvent fun error herr => ?_).bind fun _ v _ => Settles.pure fun _ _ => trivial
    cases hd : rt.dumps result with
    | error e =>
      rw [hd] at herr
      exact Except.error.inj herr ▸ hdumps result e hd
    | ok j =>
      rw [hd] at herr
      cases herr

theorem checkScheduled_notSuspended {i : Nat} {f : ActivityFunction Val} {args : JsonSafe}
    (hargs : args.Converts rt.repr) {e : EventRecord} {error : PyExc}
    (h : checkScheduled rt i f args e = .error error) : error.isSuspension = false := by
  unfold checkScheduled at h
  dsimp only at h
  split at h
  · rename_i hget
    rw [getItem] at hget
    split at hget <;> cases hget
    cases h
    rfl
  · split at h
    · cases h
      rfl
    · split at h
      · rename_i hdiffers
        cases h
        exact hargs.differs _ _ hdiffers
      · cases h
      · split at h <;> cases h
        · rename_i hrepr
          exact hargs.repr _ hrepr
        · rfl

theorem getItem_notSuspended {payload : Json} {key : String} {error : PyExc}
    (h : getItem payload key = .error error) : error.isSuspension = false := by
  unfold getItem at h
  split at h <;> cases h
  rfl

theorem settles_executeActivity (hw : ctx.workflowId = w) {f : ActivityFunction Val}
    {args : Except PyExc JsonSafe} (hconv : (Action.activity f args).Converts rt) :
    Settles w (executeActivity rt ctx f args) (fun _ _ => True) v := by
  obtain ⟨hargs, hinput, hrestore, hdumps⟩ := hconv
  unfold executeActivity
  dsimp only
  split
  · rename_i completed _
    cases hvalue : getItem completed.payload "result" >>= f.fromJsonSafe with
    | ok value => exact Settles.pure fun _ _ => trivial
    | error error =>
      refine Settles.raise fun hsusp => ?_
      have hnot : error.isSuspension = false := by
        cases hget : getItem completed.payload "result" with
        | error e =>
          rw [hget] at hvalue
          exact Except.error.inj hvalue ▸ getItem_notSuspended hget
        | ok recorded =>
          rw [hget] at hvalue
          exact hrestore recorded error hvalue
      rw [hnot] at hsusp
      cases hsusp
  · refine (settles_result hargs).bind fun input v hok => ?_
    have hconv := hinput input hok
    split
    · exact (settles_result fun _ => checkScheduled_notSuspended hconv).bind fun _ v _ =>
        settles_runAttempt hw _ f input hdumps
    · refine (settles_writeEvent fun error herr => ?_).bind fun _ v _ =>
        settles_runAttempt hw _ f input hdumps
      cases hd : input.dumps with
      | ok j =>
        rw [hd] at herr
        cases herr
      | error e =>
        rw [hd] at herr
        exact Except.error.inj herr ▸ hconv.dumps e hd

theorem settles_sleep (hw : ctx.workflowId = w) (seconds minutes hours days : ℚ) :
    Settles w (sleep rt ctx seconds minutes hours days) (fun _ _ => True) v := by
  unfold sleep
  rw [hw]
  dsimp only
  split
  · refine settles_now.bind fun time v _ => ?_
    split
    · exact Settles.pure fun _ _ => trivial
    · exact (settles_updateRunAt _).bind fun _ v h => Settles.raise fun _ => h
  · refine settles_now.bind fun time v _ => ?_
    refine (settles_result fun overflow hrange => ?_).bind fun wakeupAt v _ => ?_
    · obtain ⟨message, rfl⟩ := timeAfter_error hrange
      rfl
    refine (settles_writeEvent (by simp)).bind fun _ v _ => ?_
    exact (settles_updateRunAt _).bind fun _ v h => Settles.raise fun _ => h

theorem settles_spawnChild {name : String} {kwargs : Except PyExc Json}
    (hconv : (Action.spawnChild name kwargs : Action Val).Converts rt) :
    Settles w (spawnChild rt ctx name kwargs) (fun _ _ => True) v := by
  unfold spawnChild
  dsimp only
  split
  · rename_i started _
    cases hget : getItem started.payload "child_id" with
    | ok value => exact Settles.pure fun _ _ => trivial
    | error error =>
      exact Settles.raise fun hsusp => by simp [getItem_notSuspended hget] at hsusp
  · refine Settles.bind (Q := fun _ _ => True) (settles_transaction ?_ fun _ _ _ _ _ => trivial)
      fun _ v _ => Settles.pure fun _ _ => trivial
    rintro error ⟨w₁, i, n, ty, hmem⟩
    cases kwargs with
    | error e =>
      simp [Txn.statements, insertInto, Except.map] at hmem
      rcases hmem with h | h <;> rw [h.2.2.2.2] <;> exact hconv e rfl
    | ok input => simp [Txn.statements, insertInto, Except.map] at hmem

theorem outcome_notSuspended {wait : Wait} {event : EventRecord} {error : PyExc}
    (h : wait.outcome rt event = .error error) : error.isSuspension = false := by
  cases wait with
  | signal T => cases h
  | child c =>
    obtain ⟨childId, message, rfl⟩ := childSignalResult_error h
    rfl

theorem settles_answer (wait : Wait) (event : EventRecord) :
    Settles w (ExceptT.mk (.pure (wait.outcome rt event)) : Engine Val Val) (fun _ _ => True) v := by
  cases hvalue : wait.outcome rt event with
  | ok value => exact Settles.pure fun _ _ => trivial
  | error error => exact Settles.raise fun hsusp => by simp [outcome_notSuspended hvalue] at hsusp

/-- a wait suspends when it has marked the row; refused, it finds the answer -/
theorem settles_waitFor (hw : ctx.workflowId = w) (wait : Wait) :
    Settles w (waitFor rt ctx wait) (fun _ _ => True) v := by
  have hsuspend : ∀ v, Settles w (suspendUnlessAnswered rt ctx wait) (fun _ _ => True) v := by
    intro v
    unfold suspendUnlessAnswered
    rw [Wait.mark_eq, hw]
    have hmark : Settles w (transaction (.markWorkflowWaiting w wait) : Engine Val Bool)
        (fun b v' => if b then v'.released else v'.answered wait) v := by
      refine settles_transaction ?_ fun b v' hgives v'' hv => ?_
      · rintro error ⟨w₁, i, n, ty, hmem⟩
        simp [Txn.statements] at hmem
      · cases b with
        | true => exact hv.released (hgives rfl)
        | false => exact hv.answered wait (hgives.2 wait rfl)
    refine hmark.bind fun b v h => ?_
    cases b with
    | true => exact Settles.raise fun _ => h
    | false =>
      have hload : Settles w (loadEventHistory w : Engine Val _)
          (fun history _ => (history.find? wait.isAnswer).isSome = true) v :=
        Settles.call (k := .ok) fun reply v' hv hgives v'' _ =>
          hgives rfl wait (hv.answered wait h)
      refine hload.bind fun history v' hfind => ?_
      obtain ⟨answer, hanswer⟩ := Option.isSome_iff_exists.mp hfind
      dsimp only
      rw [hanswer]
      exact settles_answer wait answer
  unfold waitFor
  dsimp only
  split
  · exact settles_answer wait _
  · split
    · exact (settles_writeEvent (by simp)).bind fun _ v _ => hsuspend v
    · exact hsuspend v

/-- **A step that suspends has released the lease.** -/
theorem settles_executeStep (hw : ctx.workflowId = w) {action : Action Val}
    (hconv : action.Converts rt) (hend : action.isEnd = false) :
    Settles w (executeStep rt ctx action) (fun _ _ => True) v := by
  cases action with
  | activity f args => exact settles_executeActivity hw hconv
  | sleep seconds minutes hours days => exact settles_sleep hw seconds minutes hours days
  | spawnChild name kwargs => exact settles_spawnChild hconv
  | waitForChild childId => exact settles_waitFor hw (.child childId)
  | waitForSignal signalType => exact settles_waitFor hw (.signal signalType)
  | ret result => cases hend
  | raise error => cases hend

/-! ## the two ends of a run -/

theorem wp_bind_release {txn : Txn} {f : Bool → Engine Val α}
    (h : wp (settleRules w) (transaction txn : Engine Val Bool).run (fun _ v' => v'.released) v) :
    wp (settleRules w) (transaction txn >>= f).run (fun _ v' => v'.released) v :=
  wp_run_bind (wp_mono (fun _ _ hv => released_stays hv) h)

/-- `startRun` goes on to the workflow function, or ends the workflow -/
theorem settles_startRun (registry : String → Option (Json → Program Val)) {record : WorkflowRecord}
    (hw : record.workflowId = w) :
    wp (settleRules w) (startRun registry record).run
      (fun result v' => (∀ p, result ≠ .ok (some p)) → v'.released) v := by
  have hfail : ∀ message parentInfo v, wp (settleRules w)
      (transaction (.failWorkflow w message parentInfo) >>= fun _ => pure none :
        Engine Val (Option (Program Val × WorkflowContext))).run
      (fun result v' => (∀ p, result ≠ .ok (some p)) → v'.released) v := by
    intro message parentInfo v
    have h : wp (settleRules w) (transaction (.failWorkflow w message parentInfo) >>= fun _ =>
        pure none : Engine Val (Option (Program Val × WorkflowContext))).run
        (fun _ v' => v'.released) v := wp_bind_release (wp_failWorkflow message parentInfo)
    refine wp_mono (fun result v' hrel => ?_) h
    exact fun _ => hrel
  unfold startRun
  rw [hw]
  refine wp_run_bind ?_
  rw [run_loadEventHistory]
  intro v₁ _
  refine ⟨trivial, fun history v₂ _ => ⟨trivial, fun v₃ _ => ?_⟩⟩
  dsimp only
  split
  · exact hfail _ _ v₃
  · split
    · exact hfail _ _ v₃
    · exact fun _ _ hne => absurd rfl (hne _)

/-- the function ends without an outcome that can be recorded -/
def Action.isUnrecorded : Action Val → Bool
  | .ret (.error _) => true
  | .raise error => error.isSuspension || error.isTextless || !error.isException
  | _ => false

theorem settles_finishRun (hw : ctx.workflowId = w) {action : Action Val} (hend : action.isEnd = true)
    (h : action.isUnrecorded = true → v.released) :
    wp (settleRules w) (finishRun rt ctx action).run (fun _ v' => v'.released) v := by
  subst hw
  cases action with
  | ret result =>
    cases result with
    | error e => exact released_stays (h rfl)
    | ok value =>
      exact wp_bind_release (wp_release rfl
        (fun _ ⟨_, _, _, _, hmem⟩ => nomatch badPayload_terminal hmem) mayReturn_terminal)
  | raise error =>
    cases error with
    | divergenceError message => exact wp_bind_release (wp_failWorkflow _ _)
    | childWorkflowFailedError childId error => exact wp_bind_release (wp_failWorkflow _ _)
    | other typeName message => exact wp_bind_release (wp_failWorkflow _ _)
    | _ => exact released_stays (h rfl)
  | _ => cases hend

/-! ## the conditions -/

/-- `json.dumps` has raised on the payload -/
def Stmt.hasBadPayload : Stmt → Bool
  | .insertEvent _ _ _ _ (.error _) => true
  | _ => false

/-- a statement raises only because its payload has no JSON -/
def Sys.failsByPayload (d : Deployment Val) (s : Sys Val) : Label Val → Bool
  | .execute t => (s.tx? t).all fun x => match x.rest with
    | stmt :: _ => match s.effect d t x stmt with
      | .raised _ => stmt.hasBadPayload
      | _ => true
    | [] => true
  | _ => true

/-- what the awaits have delivered to the function, and what it does next -/
def Run.nextAction? (r : Run Val) : Option (List (Outcome Val) × Action Val) :=
  match r.code with
  | .starting c => match c.run.value? with
    | some (.ok (some (program, _))) => some ([], program [])
    | _ => none
  | .stepping c => c.run.value?.map fun outcome =>
      (r.delivered ++ [outcome], r.program (r.delivered ++ [outcome]))
  | _ => none

/-- no conversion and no text of an exception raises `WorkflowSuspended`; and the function itself
raises it, or an exception that has no text or is no `Exception`, or returns a value that has no
JSON, only after an await has raised it -/
def Sys.endsRecorded (rt : Runtime Val) (s : Sys Val) : Label Val → Prop
  | .advance t => ∀ r delivered action, s.run? t = some r →
      r.nextAction? = some (delivered, action) →
      action.Converts rt ∧ (action.isUnrecorded = true → delivered.any suspends = true)
  | .body _ (.error error) => error.textSuspends = false
  | _ => True

/-! ## in the system -/

variable {d : Deployment Val} {s s' : Sys Val} {ok : Sys Val → Label Val → Prop}

/-- what the run has done to the row of its workflow, which is now free -/
def RowUpdate.Settles (row : WorkflowRecord) : RowUpdate → Prop
  | .terminal status => row.status = status ∧ status.isTerminal = true ∧ row.lockedBy = none
  | .waiting _ => row.status = .waiting ∧ row.lockedBy = none
  | .runAt time => row.runAt = time ∧ row.lockedBy = none
  | _ => False

/-- a transaction that releases the lease settles the row -/
theorem settles_of_commit (hs : Reachable d ok s) {t : Nat} {r : Run Val} {x : Tx}
    (hth : s.threads[t]? = some ⟨.run r, some x, true⟩) (hrest : x.rest = [])
    (hres : x.result = .ok true) (hrel : x.txn.Releases r.workflowId) :
    ∃ u, (r.workflowId, u) ∈ x.updates
      ∧ ∀ row, u.Settles (rowAfter r.workflowId x.updates row) := by
  have hxok := tx_ok hs (Sys.tx?_eq hth)
  have hchanges := hxok.changes hres
  rw [hxok.executed_of_rest hrest hres] at hchanges
  have single : ∀ change, x.txn.statements.filterMap Stmt.change? = [(r.workflowId, change)] →
      ∃ u : RowUpdate, x.updates = [(r.workflowId, u)] ∧ u.change = change := by
    intro change h
    rw [h] at hchanges
    obtain ⟨⟨w', u⟩, hu, heq⟩ := List.map_eq_singleton_iff.mp hchanges
    obtain ⟨rfl, hchange⟩ := Prod.mk.inj heq
    exact ⟨u, hu, hchange⟩
  have ended : ∀ status, status.isTerminal = true → x.txn.IsTerminalOf r.workflowId status →
      ∃ u, (r.workflowId, u) ∈ x.updates
        ∧ ∀ row, u.Settles (rowAfter r.workflowId x.updates row) := by
    intro status hterm hstatus
    obtain ⟨rest, hupdates, -⟩ := hstatus.updates hchanges
    refine ⟨.terminal status, hupdates ▸ List.mem_cons_self, fun row => ?_⟩
    rw [rowAfter_of_commit hs hth hrest hres hstatus]
    exact ⟨rfl, hterm, rfl⟩
  cases htxn : x.txn with
  | markWorkflowWaiting w' wait =>
    rw [htxn] at hrel
    obtain rfl : w' = r.workflowId := hrel
    obtain ⟨u, hu, hchange⟩ := single (.waiting wait) (by rw [htxn]; rfl)
    cases u <;> cases hchange
    exact ⟨_, hu ▸ List.mem_cons_self, fun row => by simp [hu, rowAfter, RowUpdate.Settles,
      RowUpdate.apply]⟩
  | updateWorkflowRunAt w' time =>
    rw [htxn] at hrel
    obtain rfl : w' = r.workflowId := hrel
    obtain ⟨u, hu, hchange⟩ := single (.runAt time) (by rw [htxn]; rfl)
    cases u <;> cases hchange
    exact ⟨_, hu ▸ List.mem_cons_self, fun row => by simp [hu, rowAfter, RowUpdate.Settles,
      RowUpdate.apply]⟩
  | completeWorkflow w' result parentInfo =>
    rw [htxn] at hrel
    obtain rfl : w' = r.workflowId := hrel
    exact ended .completed rfl (htxn ▸ .inl ⟨result, parentInfo, rfl, rfl⟩)
  | failWorkflow w' message parentInfo =>
    rw [htxn] at hrel
    obtain rfl : w' = r.workflowId := hrel
    exact ended .failed rfl (htxn ▸ .inr ⟨message, parentInfo, rfl, rfl⟩)
  | _ =>
    rw [htxn] at hrel
    cases hrel

/-- a transaction raises by a payload, and returns early at a statement that may -/
theorem result_cases (hfails : ∀ s l, ok s l → s.failsByPayload d l = true) (hs : Reachable d ok s)
    {t : Nat} {x : Tx} (hx : s.tx? t = some x) :
    (∀ error, x.result = .error error → x.txn.HasBadPayload error)
      ∧ (x.result = .ok false → ∃ stmt ∈ x.txn.statements, stmt.mayReturn = true) := by
  refine Reach.invariant_of_reach (I := fun s : Sys Val => ∀ t x, s.tx? t = some x →
    (∀ error, x.result = .error error → x.txn.HasBadPayload error)
      ∧ (x.result = .ok false → ∃ stmt ∈ x.txn.statements, stmt.mayReturn = true))
    ?_ ?_ hs t x hx
  · intro t x hx
    rw [Sys.initial_tx?] at hx
    cases hx
  intro s l s' hr ih hok hl t x hx
  rcases (Step.of_step hl).tx_cases hx with ⟨hx, -⟩ | ⟨_, _, _, -, -, -, rfl⟩
      | ⟨x₀, stmt, rest, rfl, hx₀, hrest, hafter⟩
  · exact ih t x hx
  · exact ⟨nofun, nofun⟩
  · have horder := (tx_ok hr hx₀).order ((tx_ok hr hx₀).result_of_rest hrest)
    rw [hrest] at horder
    have hmem : stmt ∈ x₀.txn.statements := horder ▸ List.mem_append_right _ List.mem_cons_self
    rcases Tx.after_cases hafter with ⟨error, heff, rfl⟩ | ⟨heff, rfl⟩ | ⟨-, rfl⟩
    · refine ⟨fun error' herr => ?_, nofun⟩
      obtain rfl := Except.error.inj herr
      have hbad := hfails s _ hok
      rw [Sys.failsByPayload, hx₀, Option.all_some, hrest] at hbad
      simp only [heff] at hbad
      match stmt, hbad with
      | .insertEvent w i n ty (.error e), _ =>
        obtain rfl : e = error := Effect.raised.inj heff
        exact ⟨w, i, n, ty, hmem⟩
    · exact ⟨nofun, fun _ => ⟨stmt, hmem, Sys.mayReturn_of_effect heff⟩⟩
    · exact ih t x₀ hx₀

/-- what the run `t` of the workflow `w` has achieved -/
def progress (past : List (Sys Val × Label Val)) (s : Sys Val) (t : Nat) (w : String) : Progress where
  released := ∃ s₁ r x, (s₁, .commit t) ∈ past ∧ s₁.threads[t]? = some ⟨.run r, some x, true⟩
    ∧ r.workflowId = w ∧ x.rest = [] ∧ x.result = .ok true ∧ x.txn.Releases w
  answered wait := ∃ e ∈ s.history w, wait.isAnswer e = true

theorem progress_le {l : Label Val} (hstep : Step d s l s') {t : Nat}
    (past : List (Sys Val × Label Val)) (w : String) :
    (progress past s t w).Le (progress ((s, l) :: past) s' t w) where
  released := fun ⟨s₁, r, x, hmem, h⟩ => ⟨s₁, r, x, List.mem_cons_of_mem _ hmem, h⟩
  answered := fun _ ⟨e, he, hans⟩ => ⟨e, hstep.mem_history he, hans⟩

/-- what a reply tells the run -/
theorem gives_of_answers (hfails : ∀ s l, ok s l → s.failsByPayload d l = true)
    (htext : ∀ s l, ok s l → l.textSignal = true) (hs : Reachable d ok s) {l : Label Val}
    (hends : s.endsRecorded rt l) (hstep : Step d s l s') {t : Nat} {r : Run Val} {tx : Option Tx}
    {q : Call Val} {reply : q.Reply} {k : q.Reply → Run Val}
    (hth : s.threads[t]? = some ⟨.run r, tx, true⟩) (hn : r.next? = some ⟨q, k⟩)
    (hans : Answers s t l q reply s') (past : List (Sys Val × Label Val)) :
    q.Gives r.workflowId (progress ((s, l) :: past) s' t r.workflowId) reply := by
  cases hans with
  | @commit task x txn k' hth' hrest =>
    rw [hth] at hth'
    obtain ⟨rfl, rfl, -⟩ := Thread.mk.inj (Option.some.inj hth')
    obtain ⟨-, k₁, hk₁⟩ := txn_of_thread hs hth rfl
    obtain ⟨n, hn', hk₁⟩ := Option.map_eq_some_iff.mp hk₁
    obtain rfl := Option.some.inj (hn.symm.trans hn')
    obtain rfl : txn = x.txn := Call.transaction.inj (congrArg Sigma.fst hk₁)
    obtain ⟨herror, hfalse⟩ := result_cases hfails hs (Sys.tx?_eq hth)
    have hresult : ∀ result, x.result = result → Call.Gives r.workflowId
        (progress ((s, .commit t) :: past) ((s.publish t x).setThread t ⟨k' x.result, none, true⟩) t
          r.workflowId) (.transaction x.txn : Call Val) result := by
      intro result hres
      match result, hres with
      | .error error, hres => exact herror error hres
      | .ok true, hres =>
        exact fun hrel => ⟨s, r, x, List.mem_cons_self, hth, rfl, hrest, hres, hrel⟩
      | .ok false, hres =>
        refine ⟨hfalse hres, fun wait htxn => ?_⟩
        obtain ⟨e, he, hmatch⟩ := answered_of_refused hs (Sys.tx?_eq hth) htxn hres
        have hsent : e.toEntry.SentAs fun T p => tellsText T p = true :=
          signal_sent (fun s w T payload hl => htext s (.request (.sendSignal w T payload)) hl) hs he
        obtain ⟨hw, hans⟩ := isAnswer_of_answerMatches (entry_ok hs he) hsent hmatch
        exact ⟨e, hstep.mem_history (Sys.mem_history.mpr ⟨he, hw⟩), hans⟩
    exact hresult x.result rfl
  | @read q reply th hreply =>
    cases q with
    | loadEventHistory w =>
      obtain rfl : s.history w = reply := Option.some.inj hreply
      rintro rfl wait ⟨e, he, hans⟩
      rw [Sys.setThread_history, Sys.noteLoad_history] at he
      exact List.find?_isSome.mpr ⟨e, he, hans⟩
    | _ => trivial
  | body result =>
    rintro error rfl
    exact hends

/-- what is left of the run settles the workflow, and a suspension has done so -/
def Run.Settling (r : Run Val) (v : Progress) : Prop :=
  r.Meets (settleRules r.workflowId) (fun result v' => (∀ p, result ≠ .ok (some p)) → v'.released)
    (fun outcome v' => match outcome with
      | .ok _ => True
      | .error error => error.isSuspension = true → v'.released) (fun v' => v'.released) v
  ∧ (r.delivered.any suspends = true → v.released)

theorem Run.resume_workflowId (r : Run Val) : (r.resume rt).workflowId = r.workflowId :=
  congrArg WorkflowRecord.workflowId (Run.resume_record rt r).1

theorem settling_resume {r : Run Val} (hw : r.context.workflowId = r.workflowId)
    (hconv : (r.program r.delivered).Converts rt)
    (hend : (r.program r.delivered).isUnrecorded = true → r.delivered.any suspends = true)
    (hrel : r.delivered.any suspends = true → v.released) : (r.resume rt).Settling v := by
  unfold Run.resume
  dsimp only
  split
  · rename_i h
    exact ⟨settles_finishRun hw h fun hun => hrel (hend hun), hrel⟩
  · rename_i h
    rw [Bool.not_eq_true] at h
    refine ⟨wp_mono (fun outcome v' h => ?_) (settles_executeStep hw hconv h), hrel⟩
    cases outcome with
    | ok value => trivial
    | error error => exact h

variable (hok : ∀ s l, ok s l →
  s.failsByPayload d l = true ∧ l.textSignal = true ∧ s.endsRecorded d.toRuntime l)
include hok

theorem settling_ok {past : List (Sys Val × Label Val)}
    (htrace : Trace (Sys.step d) ok Sys.initial past s) {t : Nat} {r : Run Val}
    (hr : s.run? t = some r) : r.Settling (progress past s t r.workflowId) := by
  refine run_invariant (I := fun past s t r => r.Settling (progress past s t r.workflowId))
    ?_ ?_ ?_ ?_ ?_ htrace hr
  · intro t r hr
    rw [Sys.initial_run?] at hr
    cases hr
  · intro past s l s' t worker row tx reply _ _ _ _ _
    exact ⟨settles_startRun _ rfl, nofun⟩
  · intro past s l s' t r _ _ hstep _ _ h
    have hle := progress_le hstep (t := t) past r.workflowId
    exact ⟨h.1.rely hle, hle.released ∘ h.2⟩
  · intro past s l s' t r tx n reply hpast hl hstep hth hn hans h
    have hle := progress_le hstep (t := t) past r.workflowId
    have hgives := gives_of_answers (fun s l h => (hok s l h).1) (fun s l h => (hok s l h).2.1)
      hpast.reach (hok s l hl).2.2 hstep hth hn hans past
    have hnext := (h.1.next hn).2 reply _ ⟨hle, hgives⟩
    obtain ⟨code, hcode⟩ := Run.next?_code hn reply
    rw [hcode] at hnext ⊢
    exact ⟨hnext, hle.released ∘ h.2⟩
  · intro past s s' t r r' hpast hl hstep hth hadv h
    have hle := progress_le hstep (t := t) past r.workflowId
    have hcode := ((task_ok hpast.reach hth).advance hadv).code
    have hend := (hok s _ hl).2.2 r
    rcases h.1.advance hadv with ⟨c, program, context, hc, hval, -, rfl⟩
        | ⟨c, outcome, hc, hval, hstep', rfl⟩ | ⟨rfl, hdone⟩
    · obtain ⟨hconv, hun⟩ := hend [] (program []) (Sys.run?_eq hth)
        (by simp [Run.nextAction?, hc, hval, Resumption.value?])
      exact settling_resume (Run.workflowId_of_resume hcode) hconv hun fun hdel => by cases hdel
    · obtain ⟨hconv, hun⟩ := hend (r.delivered ++ [outcome]) (r.program (r.delivered ++ [outcome]))
        (Sys.run?_eq hth) (by simp [Run.nextAction?, hc, hval, Resumption.value?])
      refine settling_resume (Run.workflowId_of_resume hcode) hconv hun fun hdel => ?_
      rw [Run.resume_workflowId]
      rw [List.any_append, Bool.or_eq_true] at hdel
      rcases hdel with hdel | hdel
      · exact hle.released (h.2 hdel)
      · cases outcome with
        | ok value => simp [suspends] at hdel
        | error error => exact hle.released (hstep' (by simpa [suspends] using hdel))
    · refine ⟨fun v' hv => hv.released (hle.released ?_), hle.released ∘ h.2⟩
      rcases hdone with ⟨result, hne, hrel⟩ | hrel
      · exact hrel hne
      · exact hrel

omit hok in
/-- **Every finished run settles its workflow**, if no conversion and no text of an exception raises
`WorkflowSuspended`, if only after an await has raised `WorkflowSuspended` the function raises it,
too, or ends in a value without a JSON, in an exception without a text or in what is no `Exception`,
and if the clients' signals of the reserved type tell no child that is not a text. -/
theorem finished_settled {past : List (Sys Val × Label Val)}
    (htrace : Trace (Sys.step d) (fun s l => s.failsByPayload d l = true ∧ l.textSignal = true
      ∧ s.endsRecorded d.toRuntime l) Sys.initial past s) {t : Nat} {r : Run Val}
    (hr : s.run? t = some r) (hended : r.isEnded = true) :
    ∃ s₁ s₂ x u row, (s₁, .commit t) ∈ past ∧ s₁.tx? t = some x ∧ (r.workflowId, u) ∈ x.updates
      ∧ s₁.step d (.commit t) = some s₂ ∧ s₂.row? r.workflowId = some row ∧ u.Settles row := by
  have hsettling := (settling_ok (fun _ _ => id) htrace hr).1
  have hreleased : (progress past s t r.workflowId).released := by
    unfold Run.Meets at hsettling
    unfold Run.isEnded at hended
    cases hc : r.code with
    | ended =>
      rw [hc] at hsettling
      exact hsettling _ (.refl _)
    | _ =>
      rw [hc] at hended
      cases hended
  obtain ⟨s₁, r₁, x, hmem, hth, hw, hrest, hres, hrel⟩ := hreleased
  obtain ⟨hs₁, s₂, hstep⟩ := htrace.of_mem hmem
  obtain ⟨u, hu, hsettles⟩ := settles_of_commit hs₁ hth hrest hres (hw ▸ hrel)
  obtain ⟨row, hrow⟩ := Option.isSome_iff_exists.mp (row_of_run hs₁ (Sys.run?_eq hth))
  refine ⟨s₁, s₂, x, u, rowAfter r₁.workflowId x.updates row, hmem, Sys.tx?_eq hth, hw ▸ hu, hstep,
    ?_, hsettles row⟩
  cases Step.of_step hstep with
  | @commit _ task x' txn k hth' _ _ =>
    rw [hth] at hth'
    obtain ⟨-, hx, -⟩ := Thread.mk.inj (Option.some.inj hth')
    obtain rfl := Option.some.inj hx
    rw [← hw, Sys.setThread_row?, Sys.row?_publish, hrow]
    rfl

end

/-! ## a workflow is completed, and one is not -/

def returnsAtOnce : List (Label Json) :=
  [.request (.startWorkflow .w "n" (.obj []))] ++ transact 0 3
    ++ [.claim "A" (newRow "w" "n" none 0)] ++ transact 1 2 ++ [.read 1, .advance 1]

def Sys.returnsJson (s : Sys Json) : Label Json → Bool
  | .advance t => (s.run? t).all fun r => r.nextAction?.all fun next => match next.2 with
    | .ret (.ok _) => true
    | _ => false
  | .body _ _ => false
  | _ => true

theorem Sys.endsRecorded_of_returnsJson {s : Sys Json} {l : Label Json} (h : s.returnsJson l = true) :
    s.endsRecorded Runtime.plain l := by
  cases l with
  | advance t =>
    intro r delivered action hr hnext
    rw [Sys.returnsJson, hr, Option.all_some, hnext, Option.all_some] at h
    match action, h with
    | .ret (.ok value), _ => exact ⟨trivial, nofun⟩
  | body t result => cases h
  | _ => trivial

theorem finished_settled_once : ∃ (s₁ s₂ : Sys Json) (u : RowUpdate) (row : WorkflowRecord),
    s₁.step returns (.commit 1) = some s₂ ∧ s₂.row? "w" = some row ∧ u.Settles row := by
  have hrun : (follow (Sys.step returns)
      (fun s l => s.failsByPayload returns l && l.textSignal && s.returnsJson l) Sys.initial
      (returnsAtOnce ++ transact 1 4 ++ [.advance 1])).any
        (fun s => (s.run? 1).any fun r => r.workflowId == "w" && r.isEnded) = true := by
    decide +kernel
  obtain ⟨s, hs, h⟩ := Reach.exists_of_follow _ hrun
  obtain ⟨r, hr, h⟩ := (Option.any_eq_true _ _).mp h
  rw [Bool.and_eq_true, beq_iff_eq] at h
  have hs : Reachable returns (fun s l => s.failsByPayload returns l = true ∧ l.textSignal = true
      ∧ s.endsRecorded returns.toRuntime l) s := hs.mono fun s l h => by
    simp only [Bool.and_eq_true] at h
    exact ⟨h.1.1, h.1.2, Sys.endsRecorded_of_returnsJson h.2⟩
  obtain ⟨past, htrace⟩ := hs.exists_trace
  obtain ⟨s₁, s₂, x, u, row, -, -, -, hstep, hrow, hsettles⟩ := finished_settled htrace hr h.2
  exact ⟨s₁, s₂, u, row, hstep, h.1 ▸ hrow, hsettles⟩

/-- the workflow returns a value that `json.dumps` refuses -/
def unserializable : Deployment Json :=
  .plain fun _ => some fun _ _ => .ret (.error (.other "TypeError" "not JSON serializable"))

/-- the only statement that fails is the `INSERT` of the result; the run ends, has given up its lease
by no commit, and leaves the row RUNNING and locked -/
theorem result_unrecorded : ∃ (s : Sys Json) (r : Run Json),
    Reachable unserializable (fun s l => s.failsByPayload unserializable l && !s.releases "w" l) s
      ∧ s.run? 1 = some r ∧ r.workflowId = "w" ∧ r.isEnded = true
      ∧ s.hasStatus "w" .running = true ∧ s.lockedBy "w" (some "A") = true := by
  have hrun : (follow (Sys.step unserializable)
      (fun s l => s.failsByPayload unserializable l && !s.releases "w" l) Sys.initial
      (returnsAtOnce ++ transact 1 1 ++ [.advance 1])).any
        (fun s => (s.run? 1).any (fun r => r.workflowId == "w" && r.isEnded)
          && (s.hasStatus "w" .running && s.lockedBy "w" (some "A"))) = true := by
    decide +kernel
  obtain ⟨s, hs, h⟩ := Reach.exists_of_follow _ hrun
  simp only [Bool.and_eq_true] at h
  obtain ⟨r, hr, hended⟩ := (Option.any_eq_true _ _).mp h.1
  rw [Bool.and_eq_true, beq_iff_eq] at hended
  exact ⟨s, r, hs, hr, hended.1, hended.2, h.2.1, h.2.2⟩

end TemporalLight
