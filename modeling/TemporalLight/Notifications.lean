import TemporalLight.Streams
import TemporalLight.Steps
import TemporalLight.Origins

/-!
# Every committed event is notified

A transaction notifies the workflows of its events, but for the STARTED event of the row that it
inserts: no one can have read that log yet.  `write_event` notifies with a statement of its own, after
its `INSERT` has been committed.

* `Notifies`          code that does not leave the `pg_notify` of `write_event` out
* `notifies_ok`       the code of every run is such code
* `notified_of_commit` what becomes of the notification of an event that has been committed
* `toNotify_step`     a notification that is to be sent is sent, unless the thread crashes
-/

namespace TemporalLight
open Runs Resumption

section
variable {Val α β : Type}

/-! ## the code of a run -/

def Call.owed : (q : Call Val) → q.Reply → Option String
  | .transaction (.insertEvent workflowId _ _ _ _), .ok _ => some workflowId
  | _, _ => none

/-- the next call of the code is the notification it owes -/
def notifyRules : Rules (Call Val) Call.Reply (Option String) where
  rely owed owed' := owed = owed'
  ask q owed := ∀ w, owed = some w → q = .pgNotify w
  answer q reply _ owed' := owed' = q.owed reply
  keep _ _ := True
  rely_refl _ := rfl
  rely_trans := Eq.trans

def Notifies (c : Engine Val α) : Prop := wp notifyRules c.run (fun _ owed => owed = none) none

theorem Notifies.pure (r : Except PyExc α) : Notifies (ExceptT.mk (.pure r) : Engine Val α) :=
  fun _ h => h.symm

theorem Notifies.bind {c : Engine Val α} {f : α → Engine Val β} (hc : Notifies c)
    (hf : ∀ a, Notifies (f a)) : Notifies (c >>= f) := by
  refine wp_run_bind (wp_mono ?_ hc)
  rintro r owed rfl
  cases r with
  | ok a => exact hf a
  | error e => exact Notifies.pure _

theorem Notifies.call {q : Call Val} (h : ∀ reply, q.owed reply = none) (k : q.Reply → Except PyExc α) :
    Notifies (ExceptT.mk (.call q fun r => .pure (k r))) := by
  rintro owed rfl
  refine ⟨nofun, fun reply owed' hans => ⟨trivial, ?_⟩⟩
  rintro owed'' rfl
  exact hans.trans (h reply)

theorem Notifies.transaction {txn : Txn}
    (h : ∀ reply, (Call.transaction txn : Call Val).owed reply = none) :
    Notifies (transaction txn : Engine Val Bool) := Notifies.call h id

theorem Notifies.now : Notifies (now : Engine Val Int) := Notifies.call (fun _ => rfl) .ok

theorem Notifies.writeEvent (w : String) (i : Int) (n : String) (ty : EventType)
    (payload : Except PyExc Json) : Notifies (writeEvent w i n ty payload : Engine Val Unit) := by
  refine wp_run_bind ?_
  rintro owed rfl
  refine ⟨nofun, ?_⟩
  rintro reply owed rfl
  refine ⟨trivial, ?_⟩
  cases reply with
  | error error => exact fun _ h => h ▸ Notifies.pure (.error error)
  | ok b =>
    rintro owed rfl owed' rfl
    refine ⟨fun w' hw => by rw [Option.some.inj hw], ?_⟩
    rintro reply owed rfl
    exact ⟨trivial, fun _ h => h.symm⟩

variable {rt : Runtime Val} {ctx : WorkflowContext}

theorem notifies_runAttempt (i : Nat) (f : ActivityFunction Val) (args : JsonSafe) :
    Notifies (runAttempt rt ctx i f args) := by
  unfold runAttempt
  refine Notifies.now.bind fun startedAt => ?_
  have hbody : Notifies (runActivityBody ctx.workflowId i f args) := Notifies.call (fun _ => rfl) .ok
  refine hbody.bind fun result => ?_
  cases result with
  | error executionError =>
    show Notifies (if _ then _ else _)
    split
    · refine Notifies.now.bind fun endedAt => Notifies.bind ?_ fun _ => Notifies.pure _
      unfold handleActivityFailure
      refine (Notifies.pure _).bind fun errorMessage => ?_
      refine (Notifies.writeEvent _ _ _ _ _).bind fun _ => ?_
      show Notifies (if _ then _ else _)
      split
      · refine Notifies.now.bind fun time => (Notifies.pure _).bind fun retryAt => ?_
        exact (Notifies.transaction fun _ => rfl).bind fun _ => Notifies.pure _
      · exact (Notifies.transaction fun _ => rfl).bind fun _ => Notifies.pure _
    · exact Notifies.pure _
  | ok result =>
    exact Notifies.now.bind fun endedAt => (Notifies.writeEvent _ _ _ _ _).bind fun _ => Notifies.pure _

theorem notifies_waitFor (wait : Wait) : Notifies (waitFor rt ctx wait) := by
  have hsuspend : Notifies (suspendUnlessAnswered rt ctx wait) := by
    unfold suspendUnlessAnswered
    rw [Wait.mark_eq]
    refine (Notifies.transaction fun _ => rfl).bind fun marked => ?_
    cases marked with
    | true => exact Notifies.pure _
    | false =>
      have hload : Notifies (loadEventHistory ctx.workflowId : Engine Val _) :=
        Notifies.call (fun _ => rfl) .ok
      refine hload.bind fun history => ?_
      dsimp only
      split <;> exact Notifies.pure _
  unfold waitFor
  dsimp only
  split
  · exact Notifies.pure _
  · split
    · exact (Notifies.writeEvent _ _ _ _ _).bind fun _ => hsuspend
    · exact hsuspend

theorem notifies_executeStep (action : Action Val) : Notifies (executeStep rt ctx action) := by
  cases action with
  | activity f args =>
    show Notifies (executeActivity rt ctx f args)
    unfold executeActivity
    dsimp only
    split
    · exact Notifies.pure _
    · refine (Notifies.pure args).bind fun arguments => ?_
      split
      · exact (Notifies.pure _).bind fun _ => notifies_runAttempt _ f arguments
      · exact (Notifies.writeEvent _ _ _ _ _).bind fun _ => notifies_runAttempt _ f arguments
  | sleep seconds minutes hours days =>
    show Notifies (sleep rt ctx seconds minutes hours days)
    unfold sleep
    dsimp only
    split
    · refine Notifies.now.bind fun time => ?_
      split
      · exact Notifies.pure _
      · exact (Notifies.transaction fun _ => rfl).bind fun _ => Notifies.pure _
    · refine Notifies.now.bind fun time => (Notifies.pure _).bind fun wakeupAt => ?_
      refine (Notifies.writeEvent _ _ _ _ _).bind fun _ => ?_
      exact (Notifies.transaction fun _ => rfl).bind fun _ => Notifies.pure _
  | spawnChild name kwargs =>
    show Notifies (spawnChild rt ctx name kwargs)
    unfold spawnChild
    dsimp only
    split
    · exact Notifies.pure _
    · exact (Notifies.transaction fun _ => rfl).bind fun _ => Notifies.pure _
  | waitForChild childId => exact notifies_waitFor (.child childId)
  | waitForSignal signalType => exact notifies_waitFor (.signal signalType)
  | ret result => exact Notifies.pure _
  | raise error => exact Notifies.pure _

theorem notifies_startRun (registry : String → Option (Json → Program Val)) (record : WorkflowRecord) :
    Notifies (startRun registry record) := by
  have hload : Notifies (loadEventHistory record.workflowId : Engine Val _) :=
    Notifies.call (fun _ => rfl) .ok
  unfold startRun
  refine hload.bind fun history => ?_
  dsimp only
  split
  · exact (Notifies.transaction fun _ => rfl).bind fun _ => Notifies.pure _
  · split
    · exact (Notifies.transaction fun _ => rfl).bind fun _ => Notifies.pure _
    · exact Notifies.pure _

theorem notifies_finishRun (action : Action Val) : Notifies (finishRun rt ctx action) := by
  unfold finishRun
  split
  · exact Notifies.pure _
  · split
    · refine (Notifies.pure _).bind fun message => ?_
      exact (Notifies.transaction fun _ => rfl).bind fun _ => Notifies.pure _
    · exact Notifies.pure _
  · exact (Notifies.transaction fun _ => rfl).bind fun _ => Notifies.pure _
  · exact Notifies.pure _

end

section
variable {Val : Type} {d : Deployment Val} {s s' : Sys Val} {ok : Sys Val → Label Val → Prop}

def Run.Notifies (r : Run Val) (owed : Option String) : Prop :=
  r.Meets notifyRules (fun _ owed => owed = none) (fun _ owed => owed = none) (fun owed => owed = none)
    owed

theorem notifies_resume (rt : Runtime Val) (r : Run Val) : (r.resume rt).Notifies none := by
  unfold Run.resume
  dsimp only
  split
  · exact wp_mono (fun _ _ h => h) (notifies_finishRun _)
  · exact notifies_executeStep _

theorem notifies_ok (hs : Reachable d ok s) {t : Nat} {r : Run Val} (hr : s.run? t = some r) :
    ∃ owed, r.Notifies owed := by
  obtain ⟨past, htrace⟩ := hs.exists_trace
  refine run_invariant (I := fun _ _ _ r => ∃ owed, r.Notifies owed) ?_ ?_ ?_ ?_ ?_ htrace hr
  · intro t r hr
    rw [Sys.initial_run?] at hr
    cases hr
  · intro _ _ _ _ _ worker row _ _ _ _ _ _ _
    exact ⟨none, notifies_startRun _ _⟩
  · intro _ _ _ _ _ _ _ _ _ _ _ h
    exact h
  · rintro _ _ _ _ _ r _ n reply _ _ _ _ hn _ ⟨owed, h⟩
    exact ⟨_, (Run.Meets.next h hn).2 reply _ rfl⟩
  · intro _ _ _ _ r r' _ _ _ _ hadv _
    rcases Run.advance_cases hadv with ⟨_, _, _, -, -, rfl⟩ | ⟨_, _, -, -, rfl⟩ | ⟨rfl, -⟩
    · exact ⟨none, notifies_resume _ _⟩
    · exact ⟨none, notifies_resume _ _⟩
    · exact ⟨none, fun _ h => h.symm⟩

/-- a run that owes a notification sends it next -/
theorem Run.Notifies.next? {r : Run Val} {w : String} (h : r.Notifies (some w)) :
    ∃ k, r.next? = some ⟨.pgNotify w, k⟩ := by
  have hpending {γ : Type} {c : Engine Val γ} {Φ : Except PyExc γ → Option String → Prop}
      (hΦ : ∀ r owed, Φ r owed → owed = none) (h : wp notifyRules c.run Φ (some w)) :
      ∃ k, c.run.pending? = some ⟨.pgNotify w, k⟩ := by
    cases hc : c.run with
    | pure r =>
      rw [hc] at h
      cases hΦ _ _ (wp_value h)
    | call q k =>
      rw [hc] at h
      obtain rfl := wp_ask h w rfl
      exact ⟨k, rfl⟩
  unfold Run.Notifies Run.Meets at h
  unfold Run.next?
  cases hcode : r.code with
  | ended =>
    rw [hcode] at h
    cases h _ rfl
  | _ =>
    rw [hcode] at h
    obtain ⟨k, hk⟩ := hpending (fun _ _ h => h) h
    exact ⟨_, Option.map_eq_some_iff.mpr ⟨_, hk, rfl⟩⟩

/-! ## the notifications of a commit -/

theorem notifies_of_writeTerminal {w : String} {ty : EventType}
    {outcome : Except PyExc (String × Json)} {status : WorkflowStatus}
    {parentInfo : Option ParentInfo} {childStatus : String} {e : Entry}
    (h : e ∈ (writeTerminalWorkflowEvent w ty outcome status parentInfo childStatus).filterMap
      Stmt.event?) :
    e.workflowId ∈ (writeTerminalWorkflowEvent w ty outcome status parentInfo childStatus).filterMap
      Stmt.notifies? := by
  have hnotifies : (writeTerminalWorkflowEvent w ty outcome status parentInfo childStatus).filterMap
      Stmt.notifies? = (parentInfo.toList.map fun parent => parent.workflowId) ++ [w] := by
    cases parentInfo <;> rfl
  rw [hnotifies]
  obtain ⟨o, -, rfl | ⟨parent, rfl, rfl⟩⟩ := mem_writeTerminal h
  · exact List.mem_append_right _ List.mem_cons_self
  · exact List.mem_append_left _ List.mem_cons_self

/-- the workflow of an event is notified, with the transaction or after it, or is new -/
theorem Txn.notifies_of_entry {txn : Txn} {e : Entry} (h : e ∈ txn.statements.filterMap Stmt.event?) :
    e.workflowId ∈ txn.statements.filterMap Stmt.notifies?
    ∨ (∃ i n ty p, txn = .insertEvent e.workflowId i n ty p)
    ∨ ∃ name parent, (e.workflowId, name, parent) ∈ txn.statements.filterMap Stmt.created? := by
  cases txn with
  | createWorkflow w name input =>
    obtain rfl : ⟨w, -1, "workflow", .started, .obj [("input", input)]⟩ = e := by
      simpa [Txn.statements, insertInto, Stmt.event?] using h
    exact .inr (.inr ⟨name, none, by simp [Txn.statements, Stmt.created?]⟩)
  | createChildWorkflow p c name input i =>
    simp only [Txn.statements, List.filterMap_append, List.mem_append] at h
    rcases h with ((h | h) | h) | h
    · simp [Stmt.event?] at h
    · obtain ⟨q, -, rfl⟩ := mem_insertInto h
      exact .inr (.inr ⟨name, some p, by simp [Txn.statements, Stmt.created?]⟩)
    · obtain ⟨q, -, rfl⟩ := mem_insertInto h
      exact .inl (by simp [Txn.statements, insertInto, Stmt.notifies?])
    · simp [Stmt.event?] at h
  | completeWorkflow w result parent =>
    exact .inl (notifies_of_writeTerminal h)
  | failWorkflow w message parent =>
    exact .inl (notifies_of_writeTerminal h)
  | insertEvent w i n ty p =>
    obtain ⟨q, rfl, rfl⟩ := mem_insertInto h
    exact .inr (.inl ⟨i, n, ty, .ok q, rfl⟩)
  | writeSignalAndWakeWorkflow w T payload =>
    obtain rfl : e = ⟨w, -1, "signal", .signal,
        .obj [("signal_type", .str T), ("payload", payload)]⟩ := by
      simpa [Txn.statements, insertInto, Stmt.event?] using h
    exact .inl (by simp [Txn.statements, insertInto, Stmt.notifies?])
  | _ => simp [Txn.statements, Stmt.event?] at h

theorem toNotify?_eq_some {t : Nat} {w : String} : s.toNotify? d t = some w ↔
    ∃ task k, s.threads[t]? = some ⟨task, none, true⟩ ∧ task.next? d t = some ⟨.pgNotify w, k⟩ := by
  unfold Sys.toNotify?
  constructor
  · intro h
    split at h
    · rename_i task alive hth
      obtain ⟨hth, rfl⟩ := Sys.thread?_eq_some hth
      split at h
      · rename_i w' k hq
        obtain rfl := Option.some.inj h
        exact ⟨task, k, hth, hq⟩
      · cases h
    · cases h
  · rintro ⟨task, k, hth, hq⟩
    have hthread : s.thread? t = some ⟨task, none, true⟩ := by
      rw [Sys.thread?, hth]
      rfl
    rw [hthread]
    dsimp only
    rw [hq]

/-- the `INSERT` of `write_event` has been committed: the notification is next -/
theorem toNotify_insert (hs : Reachable d ok s) {t : Nat} {task : Task Val} {tx : Option Tx}
    {txn : Txn} {w n : String} {i : Int} {ty : EventType} {p : Except PyExc Json} {b : Bool}
    {k : (Call.transaction txn : Call Val).Reply → Task Val}
    (hth : s.threads[t]? = some ⟨task, tx, true⟩)
    (hq : task.next? d t = some ⟨.transaction txn, k⟩) (htxn : txn = .insertEvent w i n ty p) :
    ∃ k', (k (.ok b)).next? d t = some ⟨.pgNotify w, k'⟩ := by
  subst htxn
  cases task with
  | run r =>
    obtain ⟨n', hn, hk⟩ := Option.map_eq_some_iff.mp hq
    obtain ⟨q, k₀⟩ := n'
    obtain ⟨rfl, hk⟩ := Sigma.mk.inj hk
    obtain rfl := eq_of_heq hk
    obtain ⟨owed, hr⟩ := notifies_ok hs (Sys.run?_eq hth)
    have hnext : (k₀ (.ok b)).Notifies (some w) := (Run.Meets.next hr hn).2 (.ok b) _ rfl
    obtain ⟨k', hk'⟩ := hnext.next?
    exact ⟨fun reply => .run (k' reply), Option.map_eq_some_iff.mpr ⟨_, hk', rfl⟩⟩
  | claiming worker row => cases hq
  | request r c =>
    have hissues := ((task_ok hs hth).next hq).1 _ rfl
    cases r <;> cases hissues
  | heartbeat w c =>
    have hissues := ((task_ok hs hth).next hq).1 _ rfl
    cases hissues

/-- **An event that is committed is notified, unless no one can have read its log.** -/
theorem notified_of_commit (hs : Reachable d ok s) {t : Nat} {x : Tx} (hx : s.tx? t = some x)
    (hl : s.step d (.commit t) = some s') {e : EventRecord} (he : e ∈ x.inserted) :
    e.workflowId ∈ s.sends d (.commit t) ∨ s'.toNotify? d t = some e.workflowId
      ∨ s.row? e.workflowId = none := by
  have hok := tx_ok hs hx
  obtain ⟨hres, -⟩ := hok.mem_inserted he
  generalize hlabel : Label.commit t = l at hl
  cases Step.of_step hl with
  | @commit t' task x' txn k hth hrest hq =>
    obtain rfl := Label.commit.inj hlabel
    obtain rfl := Option.some.inj ((Sys.tx?_eq hth).symm.trans hx)
    have hexecuted := hok.executed_of_rest hrest hres
    obtain ⟨-, k', hk'⟩ := txn_of_thread hs hth rfl
    obtain rfl : txn = x'.txn :=
      Call.transaction.inj (congrArg Sigma.fst (Option.some.inj (hq.symm.trans hk')))
    rcases Txn.notifies_of_entry (hok.mem_entries he) with hmem | ⟨i, n, ty, p, htxn⟩
        | ⟨name, parent, hmem⟩
    · refine .inl ?_
      rw [Sys.sends, hx]
      dsimp only
      rw [hres, hexecuted]
      exact List.mem_dedup.mpr hmem
    · refine .inr (.inl ?_)
      rw [hres]
      obtain ⟨k', hk'⟩ := toNotify_insert (b := true) hs hth hq htxn
      refine toNotify?_eq_some.mpr ⟨_, k', ?_, hk'⟩
      rw [Sys.getElem?_setThread (s := s.publish t x') hth, if_pos rfl]
    · refine .inr (.inr ?_)
      rw [← hexecuted, ← hok.rows hres] at hmem
      obtain ⟨row, hrow, hkey⟩ := List.mem_map.mp hmem
      have hfresh := (keys_ok hs).fresh t x' hx row hrow
      rwa [show row.workflowId = e.workflowId from congrArg Prod.fst hkey] at hfresh
  | _ => cases hlabel

/-! ## a notification that is to be sent -/

theorem Run.next?_of_advance {rt : Runtime Val} {r r' : Run Val} (h : r.advance rt = some r') :
    r.next? = none := by
  unfold Run.next?
  rcases Run.advance_cases h with ⟨c, _, _, hc, hval, -⟩ | ⟨c, _, hc, hval, -⟩
      | ⟨-, ⟨c, _, hc, hval, -⟩ | ⟨c, _, hc, hval⟩⟩ <;> rw [hc] <;> dsimp only <;> rw [hval] <;> rfl

/-- a thread that is to send a notification sends it, or crashes, or has not been at work -/
theorem toNotify_step {l : Label Val} {t : Nat} {w : String} (hl : s.step d l = some s')
    (h : s.toNotify? d t = some w) (hcrash : l ≠ .crash t) :
    s'.toNotify? d t = some w ∨ w ∈ s.sends d l := by
  have hsend : s.toNotify? d t = some w := h
  obtain ⟨task, k, hth, hq⟩ := toNotify?_eq_some.mp h
  have hlt := (List.getElem?_eq_some_iff.mp hth).1
  have hsame (h : s'.threads[t]? = s.threads[t]?) : s'.toNotify? d t = some w :=
    toNotify?_eq_some.mpr ⟨task, k, h.trans hth, hq⟩
  have hspawn (new : Task Val) : (s.spawn new).threads[t]? = s.threads[t]? := by
    rw [Sys.getElem?_spawn, if_neg (by omega)]
  have hset (u : Nat) (old new : Thread Val) (hold : s.threads[u]? = some old) (hne : u ≠ t) :
      (s.setThread u new).threads[t]? = s.threads[t]? := by
    rw [Sys.getElem?_setThread hold, if_neg (Ne.symm hne)]
  have hself {u : Nat} {old : Thread Val} (hold : s.threads[u]? = some old) (hut : u = t) :
      old = ⟨task, none, true⟩ := by
    rw [hut, hth] at hold
    exact (Option.some.inj hold).symm
  cases Step.of_step hl with
  | tick n => exact .inl (hsame rfl)
  | claim worker row => exact .inl (hsame (hspawn _))
  | request r => exact .inl (hsame (hspawn _))
  | heartbeat hth' hr => exact .inl (hsame (hspawn _))
  | @begin u task' txn k' hth' hq' =>
    by_cases hut : u = t
    · obtain ⟨rfl, -⟩ := Thread.mk.inj (hself hth' hut)
      rw [hut, hq] at hq'
      cases hq'
    · exact .inl (hsame (hset u _ _ hth' hut))
  | @execute u task' x x' stmt rest hth' hrest hx' =>
    by_cases hut : u = t
    · cases hself hth' hut
    · exact .inl (hsame (hset u _ _ hth' hut))
  | @commit u task' x txn k' hth' hrest hq' =>
    by_cases hut : u = t
    · cases hself hth' hut
    · exact .inl (hsame (hset u _ _ hth' hut))
  | @read u task' q k' reply hth' hq' hreply =>
    by_cases hut : u = t
    · refine .inr ?_
      rw [Sys.sends, hut, hsend]
      exact List.mem_singleton_self w
    · refine .inl (hsame ?_)
      have hthreads := hset u _ ⟨k' reply, none, true⟩ hth' hut
      rw [← hthreads]
      show ((s.noteLoad q).threads.set u _)[t]? = (s.threads.set u _)[t]?
      rw [Sys.noteLoad_threads]
  | @body u task' w' i f args k' result hth' hq' =>
    by_cases hut : u = t
    · obtain ⟨rfl, -⟩ := Thread.mk.inj (hself hth' hut)
      rw [hut, hq] at hq'
      cases hq'
    · exact .inl (hsame (hset u _ _ hth' hut))
  | @advance u r r' hth' hr =>
    by_cases hut : u = t
    · obtain ⟨rfl, -⟩ := Thread.mk.inj (hself hth' hut)
      have hnone : (Task.run r).next? d t = none := by
        show r.next?.map _ = none
        rw [Run.next?_of_advance hr]
        rfl
      rw [hnone] at hq
      cases hq
    · exact .inl (hsame (hset u _ _ hth' hut))
  | @crash u task' tx hth' =>
    exact .inl (hsame (hset u _ _ hth' fun hut => hcrash (by rw [hut])))

end

end TemporalLight
