import TemporalLight.Calls

/-!
# The tasks of the threads

Every thread runs the code it was given, so what the rules of `Calls` say about the code holds of
every thread of every reachable state.

* `task_ok`        the code of a thread is at a point of its own program (`Task.Ok`); for a run:
                   its program and its context come from a history of its workflow, and every
                   await has delivered what its action allows;
* `txn_of_thread`  an open transaction is the call that its thread waits for, and hence one that
                   the thread may issue (`issues_of_thread`).
-/

namespace TemporalLight
open Runs Resumption

section
variable {Val : Type} {d : Deployment Val} {s s' : Sys Val} {ok : Sys Val → Label Val → Prop}

/-! ## the tasks of a step -/

/-- the step `l` answers the call that thread `t` waits for -/
inductive Answers (s : Sys Val) (t : Nat) : Label Val → (q : Call Val) → q.Reply → Sys Val → Prop
  | commit {task : Task Val} {x : Tx} {txn : Txn}
      {k : (Call.transaction txn : Call Val).Reply → Task Val}
      (hth : s.threads[t]? = some ⟨task, some x, true⟩) (hrest : x.rest = []) :
      Answers s t (.commit t) (.transaction txn) x.result
        ((s.publish t x).setThread t ⟨k x.result, none, true⟩)
  | read {q : Call Val} {reply : q.Reply} {th : Thread Val} (hreply : s.reply? q = some reply) :
      Answers s t (.read t) q reply ((s.noteLoad q).setThread t th)
  | body {w : String} {i : Nat} {f : ActivityFunction Val} {args : JsonSafe}
      {th : Thread Val} (result : Except PyExc Val) :
      Answers s t (.body t result) (.runActivityBody w i f args) result (s.setThread t th)

/-- a task that a step starts -/
inductive Task.New (s : Sys Val) : Label Val → Task Val → Prop
  | claiming (worker : String) (row : WorkflowRecord) :
      New s (.claim worker row) (.claiming worker row)
  | request (r : Request) : New s (.request r) (.request r (handleRequest r))
  | heartbeat {t : Nat} {r : Run Val} {tx : Option Tx}
      (hth : s.threads[t]? = some ⟨.run r, tx, true⟩) :
      New s (.heartbeat t) (.heartbeat r.workflowId (extendLock r.workflowId))

/-- a task after a step: the same as before, new, answered, or silently advanced -/
theorem Step.task_cases {l : Label Val} (h : Step d s l s') {u : Nat} {th' : Thread Val}
    (hth' : s'.threads[u]? = some th') :
    (∃ th, s.threads[u]? = some th ∧ th'.task = th.task)
    ∨ (u = s.threads.length ∧ Task.New s l th'.task)
    ∨ (∃ task tx q k reply, s.threads[u]? = some ⟨task, tx, true⟩ ∧ task.next? d u = some ⟨q, k⟩
        ∧ th'.task = k reply ∧ Answers s u l q reply s')
    ∨ (∃ r r', l = .advance u ∧ s.threads[u]? = some ⟨.run r, none, true⟩
        ∧ r.advance d.toRuntime = some r' ∧ th'.task = .run r') := by
  have spawned : ∀ task : Task Val, (s.spawn task).threads[u]? = some th' →
      (∃ th, s.threads[u]? = some th ∧ th'.task = th.task)
        ∨ (u = s.threads.length ∧ th'.task = task) := by
    intro task hu
    rw [Sys.getElem?_spawn] at hu
    split at hu
    · rename_i hlen
      exact .inr ⟨hlen, by rw [← Option.some.inj hu]⟩
    · exact .inl ⟨th', hu, rfl⟩
  have kept : ∀ (t : Nat) (task : Task Val) (tx tx' : Option Tx) (alive alive' : Bool),
      s.threads[t]? = some ⟨task, tx, alive⟩ →
      (s.setThread t ⟨task, tx', alive'⟩).threads[u]? = some th' →
      ∃ th, s.threads[u]? = some th ∧ th'.task = th.task := by
    intro t task tx tx' alive alive' hth hu
    rw [Sys.getElem?_setThread hth] at hu
    split at hu
    · rename_i hut
      exact ⟨_, hut ▸ hth, by rw [← Option.some.inj hu]⟩
    · exact ⟨th', hu, rfl⟩
  have changed : ∀ (t : Nat) (old new : Thread Val), s.threads[t]? = some old →
      (s.setThread t new).threads[u]? = some th' →
      (∃ th, s.threads[u]? = some th ∧ th'.task = th.task) ∨ (u = t ∧ th' = new) := by
    intro t old new hth hu
    rw [Sys.getElem?_setThread hth] at hu
    split at hu
    · rename_i hut
      exact .inr ⟨hut, (Option.some.inj hu).symm⟩
    · exact .inl ⟨th', hu, rfl⟩
  cases h with
  | tick n => exact .inl ⟨th', hth', rfl⟩
  | claim worker row =>
    rcases spawned _ hth' with h | ⟨hu, htask⟩
    · exact .inl h
    · exact .inr (.inl ⟨hu, htask ▸ .claiming worker row⟩)
  | request r =>
    rcases spawned _ hth' with h | ⟨hu, htask⟩
    · exact .inl h
    · exact .inr (.inl ⟨hu, htask ▸ .request r⟩)
  | heartbeat hth hr =>
    rcases spawned _ hth' with h | ⟨hu, htask⟩
    · exact .inl h
    · exact .inr (.inl ⟨hu, htask ▸ .heartbeat hth⟩)
  | begin hth hq => exact .inl (kept _ _ _ _ _ _ hth hth')
  | execute hth hrest hx => exact .inl (kept _ _ _ _ _ _ hth hth')
  | commit hth hrest hq =>
    rcases changed _ _ _ hth hth' with h | ⟨rfl, rfl⟩
    · exact .inl h
    · exact .inr (.inr (.inl ⟨_, _, _, _, _, hth, hq, rfl, .commit hth hrest⟩))
  | @read t task q k reply hth hq hreply =>
    have hset : (s.setThread t ⟨k reply, none, true⟩).threads[u]? = some th' := by
      rw [← hth']
      show (s.threads.set t _)[u]? = ((s.noteLoad q).threads.set t _)[u]?
      rw [Sys.noteLoad_threads]
    rcases changed _ _ _ hth hset with h | ⟨rfl, rfl⟩
    · exact .inl h
    · exact .inr (.inr (.inl ⟨_, _, _, _, _, hth, hq, rfl, .read hreply⟩))
  | body result hth hq =>
    rcases changed _ _ _ hth hth' with h | ⟨rfl, rfl⟩
    · exact .inl h
    · exact .inr (.inr (.inl ⟨_, _, _, _, _, hth, hq, rfl, .body result⟩))
  | advance hth hr =>
    rcases changed _ _ _ hth hth' with h | ⟨rfl, rfl⟩
    · exact .inl h
    · exact .inr (.inr (.inr ⟨_, _, rfl, hth, hr, rfl⟩))
  | crash hth => exact .inl (kept _ _ _ _ _ _ hth hth')

/-! ## open transactions belong to their threads -/

theorem txn_of_thread (hs : Reachable d ok s) {t : Nat} {th : Thread Val} {x : Tx}
    (hth : s.threads[t]? = some th) (hx : th.tx = some x) :
    th.alive = true ∧ ∃ k, th.task.next? d t = some ⟨.transaction x.txn, k⟩ := by
  refine Reach.invariant (I := fun s : Sys Val => ∀ t th x, s.threads[t]? = some th →
    th.tx = some x → th.alive = true ∧ ∃ k, th.task.next? d t = some ⟨.transaction x.txn, k⟩)
    ?_ ?_ hs t th x hth hx
  · intro t th x hth
    simp [Sys.initial] at hth
  · intro s l s' ih _ hl t th x hth hx
    have spawned : ∀ task, (s.spawn task).threads[t]? = some th →
        th.alive = true ∧ ∃ k, th.task.next? d t = some ⟨.transaction x.txn, k⟩ := by
      intro task hu
      rw [Sys.getElem?_spawn] at hu
      split at hu
      · obtain rfl := Option.some.inj hu
        cases hx
      · exact ih t th x hu hx
    have closed : ∀ (u : Nat) (old new : Thread Val), s.threads[u]? = some old → new.tx = none →
        (s.setThread u new).threads[t]? = some th →
        th.alive = true ∧ ∃ k, th.task.next? d t = some ⟨.transaction x.txn, k⟩ := by
      intro u old new hold hnone hu
      rw [Sys.getElem?_setThread hold] at hu
      split at hu
      · obtain rfl := Option.some.inj hu
        rw [hnone] at hx
        cases hx
      · exact ih t th x hu hx
    cases Step.of_step hl with
    | tick n => exact ih t th x hth hx
    | claim worker row => exact spawned _ hth
    | request r => exact spawned _ hth
    | heartbeat hr _ => exact spawned _ hth
    | begin hb hq =>
      rw [Sys.getElem?_setThread hb] at hth
      split at hth
      · rename_i htu
        subst htu
        obtain rfl := Option.some.inj hth
        obtain rfl := Option.some.inj hx
        exact ⟨rfl, _, hq⟩
      · exact ih t th x hth hx
    | @execute u task x₀ x' stmt rest he hrest hafter =>
      replace hth : (s.setThread u ⟨task, some x', true⟩).threads[t]? = some th := hth
      rw [Sys.getElem?_setThread he] at hth
      split at hth
      · rename_i htu
        subst htu
        obtain rfl := Option.some.inj hth
        obtain rfl := Option.some.inj hx
        have htxn : x'.txn = x₀.txn := by
          rcases Tx.after_cases hafter with ⟨_, -, rfl⟩ | ⟨-, rfl⟩ | ⟨-, rfl⟩ <;> rfl
        rw [htxn]
        exact ⟨rfl, (ih t _ x₀ he rfl).2⟩
      · exact ih t th x hth hx
    | commit hc _ _ => exact closed _ _ _ hc rfl hth
    | @read u task q k reply hr hq hreply =>
      refine closed u _ ⟨k reply, none, true⟩ hr rfl ?_
      rw [← hth]
      show (s.threads.set u _)[t]? = ((s.noteLoad q).threads.set u _)[t]?
      rw [Sys.noteLoad_threads]
    | body result hb _ => exact closed _ _ _ hb rfl hth
    | advance ha _ => exact closed _ _ _ ha rfl hth
    | crash hc => exact closed _ _ _ hc rfl hth

/-! ## the code of one thread -/

def Run.wait? (r : Run Val) : Option Wait :=
  match r.code with
  | .stepping _ => (r.program r.delivered).wait?
  | _ => none

def Run.stepContext (r : Run Val) : WorkflowContext :=
  { r.context with stepCounter := r.delivered.length }

/-- the code of a run is at a point of `_run_workflow` -/
def Run.CodeOk (rt : Runtime Val) (registry : String → Option (Json → Program Val))
    (loaded : Loaded) (r : Run Val) : Prop :=
  match r.code with
  | .starting c => r.delivered = []
    ∧ wp (codeRules (Call.OfRun r.workflowId none)) c.run (fun result loaded' =>
        ∀ program ctx, result = .ok (some (program, ctx)) →
          Run.Started registry loaded' r.record program ctx ∧ ctx.stepCounter = 0) loaded
  | .stepping c => Run.Started registry loaded r.record r.program r.context
    ∧ r.context.stepCounter = r.delivered.length + 1
    ∧ (r.program r.delivered).isEnd = false
    ∧ (executeStep rt r.stepContext (r.program r.delivered)).run.Residual c.run
    ∧ wp (codeRules (Call.OfRun r.workflowId (r.program r.delivered).wait?)) c.run (fun outcome loaded' =>
        (r.program r.delivered).Delivers rt r.workflowId r.delivered.length loaded' outcome) loaded
  | .ending c => Run.Started registry loaded r.record r.program r.context
    ∧ AsksOnly (Call.OfRun r.workflowId none) c loaded
  | .ended => True

structure Run.Ok (rt : Runtime Val) (registry : String → Option (Json → Program Val))
    (loaded : Loaded) (r : Run Val) : Prop where
  code : r.CodeOk rt registry loaded
  started : r.delivered ≠ [] → Run.Started registry loaded r.record r.program r.context
  delivers : ∀ i outcome, r.delivered[i]? = some outcome →
    (r.program (r.delivered.take i)).Delivers rt r.workflowId i loaded outcome

variable {rt : Runtime Val} {registry : String → Option (Json → Program Val)} {L L' : Loaded}

theorem Run.CodeOk.mono {r : Run Val} (hL : L ⊆ L') (h : r.CodeOk rt registry L) :
    r.CodeOk rt registry L' := by
  unfold Run.CodeOk at h ⊢
  cases hc : r.code with
  | starting c =>
    rw [hc] at h
    exact ⟨h.1, wp_rely (ρ := codeRules _) hL h.2⟩
  | stepping c =>
    rw [hc] at h
    exact ⟨h.1.mono hL, h.2.1, h.2.2.1, h.2.2.2.1, wp_rely (ρ := codeRules _) hL h.2.2.2.2⟩
  | ending c =>
    rw [hc] at h
    exact ⟨h.1.mono hL, wp_rely (ρ := codeRules _) hL h.2⟩
  | ended => trivial

theorem Run.Ok.mono {r : Run Val} (hL : L ⊆ L') (h : r.Ok rt registry L) :
    r.Ok rt registry L' where
  code := h.code.mono hL
  started hne := (h.started hne).mono hL
  delivers i o ho := (h.delivers i o ho).mono hL

theorem Run.ok_claimed (worker : String) (record : WorkflowRecord) :
    (Run.claimed registry worker record).Ok rt registry L where
  code := ⟨rfl, wp_startRun registry record⟩
  started := nofun
  delivers := nofun

/-- the step index is the number of awaits so far -/
theorem Run.ok_resume {r : Run Val}
    (hstarted : Run.Started registry L r.record r.program r.context)
    (hcount : r.context.stepCounter = r.delivered.length)
    (hdel : ∀ i outcome, r.delivered[i]? = some outcome →
      (r.program (r.delivered.take i)).Delivers rt r.workflowId i L outcome) :
    (r.resume rt).Ok rt registry L := by
  unfold Run.resume
  simp only []
  split
  · exact ⟨⟨hstarted, asksOnly_finishRun hstarted.workflowId hstarted.parent _⟩,
      fun _ => hstarted, hdel⟩
  · rename_i hend
    have hnext : Run.Started registry L r.record r.program r.context.nextStepIndex.2 :=
      ⟨hstarted.workflowId, hstarted.history, hstarted.parent, hstarted.program⟩
    refine ⟨⟨hnext, congrArg (· + 1) hcount, by simpa using hend, ?_, ?_⟩, fun _ => hnext, hdel⟩
    · have hctx : { r.context.nextStepIndex.2 with stepCounter := r.delivered.length } = r.context := by
        rw [← hcount]
        rfl
      show (executeStep rt { r.context.nextStepIndex.2 with
        stepCounter := r.delivered.length } (r.program r.delivered)).run.Residual _
      rw [hctx]
      exact .refl
    rw [← hcount]
    exact wp_executeStep hstarted.workflowId hstarted.parent hstarted.history
      (r.program r.delivered) (by simpa using hend)

theorem Run.Ok.advance {r r' : Run Val} (h : r.Ok rt registry L)
    (hr : r.advance rt = some r') : r'.Ok rt registry L := by
  have hcode := h.code
  unfold Run.CodeOk at hcode
  unfold Run.advance at hr
  cases hc : r.code with
  | starting c =>
    rw [hc] at hcode hr
    obtain ⟨v, hv, rfl⟩ := Option.map_eq_some_iff.mp hr
    have hpost := hcode.2
    rw [Resumption.value?_eq_some hv] at hpost
    have hval := wp_value hpost
    have hended : ({ r with code := .ended } : Run Val).Ok rt registry L :=
      ⟨trivial, h.started, h.delivers⟩
    match v with
    | .ok (some (program, ctx)) =>
      obtain ⟨hstarted, hcount⟩ := hval program ctx rfl
      exact Run.ok_resume hstarted hcount nofun
    | .ok none => exact hended
    | .error e => exact hended
  | stepping c =>
    rw [hc] at hcode hr
    obtain ⟨outcome, hv, rfl⟩ := Option.map_eq_some_iff.mp hr
    obtain ⟨hstarted, hcount, -, -, hpost⟩ := hcode
    rw [Resumption.value?_eq_some hv] at hpost
    have hval := wp_value hpost
    refine Run.ok_resume hstarted (by simpa using hcount) fun i o ho => ?_
    -- the old awaits, or the one that has just ended
    rcases Nat.lt_or_ge i r.delivered.length with hi | hi
    · have ho' : r.delivered[i]? = some o := by
        rwa [List.getElem?_append_left hi] at ho
      show (r.program ((r.delivered ++ [outcome]).take i)).Delivers rt r.workflowId i L o
      rw [List.take_append_of_le_length (le_of_lt hi)]
      exact h.delivers i o ho'
    · have hlt : i < (r.delivered ++ [outcome]).length := by
        obtain ⟨hlt, -⟩ := List.getElem?_eq_some_iff.mp ho
        exact hlt
      have hi' : i = r.delivered.length := by
        simp only [List.length_append, List.length_singleton] at hlt
        omega
      subst hi'
      have ho' : o = outcome := by simpa using ho.symm
      subst ho'
      show (r.program ((r.delivered ++ [o]).take r.delivered.length)).Delivers rt _ _ L o
      rw [List.take_left]
      exact hval
  | ending c =>
    rw [hc] at hr
    obtain ⟨v, hv, rfl⟩ := Option.map_eq_some_iff.mp hr
    exact ⟨trivial, h.started, h.delivers⟩
  | ended =>
    rw [hc] at hr
    cases hr

/-- a run only puts calls of its own, and goes on correctly with every reply -/
theorem Run.Ok.next {r : Run Val} (h : r.Ok rt registry L)
    {n : (q : Call Val) × (q.Reply → Run Val)} (hn : r.next? = some n) :
    n.1.OfRun r.workflowId r.wait? L ∧ ∀ reply L', L ⊆ L' → n.1.Answered L' reply →
      (n.2 reply).Ok rt registry L' := by
  have hcode := h.code
  unfold Run.CodeOk at hcode
  unfold Run.next? at hn
  cases hc : r.code with
  | starting c =>
    rw [hc] at hcode hn
    obtain ⟨m, hm, rfl⟩ := Option.map_eq_some_iff.mp hn
    obtain ⟨hdel, hwp⟩ := hcode
    rw [Resumption.pending?_eq_some hm] at hwp
    have hwait : r.wait? = none := by rw [Run.wait?, hc]
    refine ⟨by rw [hwait]; exact wp_ask hwp, fun reply L' hL hans => ?_⟩
    exact ⟨⟨hdel, (wp_answer hwp ⟨hL, hans⟩).2⟩, (h.mono hL).started, (h.mono hL).delivers⟩
  | stepping c =>
    rw [hc] at hcode hn
    obtain ⟨m, hm, rfl⟩ := Option.map_eq_some_iff.mp hn
    obtain ⟨hstarted, hcount, hend, hres, hwp⟩ := hcode
    rw [Resumption.pending?_eq_some hm] at hwp hres
    have hwait : r.wait? = (r.program r.delivered).wait? := by rw [Run.wait?, hc]
    refine ⟨by rw [hwait]; exact wp_ask hwp, fun reply L' hL hans => ?_⟩
    exact ⟨⟨hstarted.mono hL, hcount, hend, hres.answer reply, (wp_answer hwp ⟨hL, hans⟩).2⟩,
      (h.mono hL).started, (h.mono hL).delivers⟩
  | ending c =>
    rw [hc] at hcode hn
    obtain ⟨m, hm, rfl⟩ := Option.map_eq_some_iff.mp hn
    obtain ⟨hstarted, hwp⟩ := hcode
    unfold AsksOnly at hwp
    rw [Resumption.pending?_eq_some hm] at hwp
    have hwait : r.wait? = none := by rw [Run.wait?, hc]
    refine ⟨by rw [hwait]; exact wp_ask hwp, fun reply L' hL hans => ?_⟩
    exact ⟨⟨hstarted.mono hL, (wp_answer hwp ⟨hL, hans⟩).2⟩,
      (h.mono hL).started, (h.mono hL).delivers⟩
  | ended =>
    rw [hc] at hn
    cases hn

def Call.OfRequest (r : Request) (q : Call Val) : Prop :=
  match r, q with
  | .startWorkflow id name input, .transaction txn => txn = .createWorkflow id.text name input
  | .sendSignal w _ _, .getWorkflow w' => w' = w
  | .sendSignal w T payload, .transaction txn => txn = .writeSignalAndWakeWorkflow w T payload
  | _, _ => False

theorem asksOnly_handleRequest (r : Request) :
    AsksOnly (fun _ q => Call.OfRequest r q) (handleRequest r : Engine Val Response) L := by
  cases r with
  | startWorkflow workflowId name input =>
    exact AsksOnly.bind (AsksOnly.call (fun _ _ => by exact rfl) id) fun _ _ _ => AsksOnly.pure _
  | sendSignal w T payload =>
    have hget : AsksOnly (fun _ q => Call.OfRequest (.sendSignal w T payload) q)
        (getWorkflow w : Engine Val _) L := AsksOnly.call (fun _ _ => by exact rfl) .ok
    refine hget.bind fun row L₁ _ => ?_
    cases row with
    | none => exact AsksOnly.pure _
    | some record =>
      show AsksOnly _ (if _ then _ else _) L₁
      split
      · exact AsksOnly.pure _
      · exact AsksOnly.bind (AsksOnly.call (fun _ _ => by exact rfl) id) fun _ _ _ => AsksOnly.pure _

theorem asksOnly_extendLock (w : String) :
    AsksOnly (fun _ q => q = .transaction (.extendWorkflowLock w))
      (extendLock w : Engine Val Unit) L :=
  AsksOnly.bind (AsksOnly.call (fun _ _ => by exact rfl) id) fun _ _ _ => AsksOnly.pure _

def Task.Ok (d : Deployment Val) (t : Nat) (loaded : Loaded) : Task Val → Prop
  | .claiming _ _ => True
  | .run r => r.Ok d.toRuntime (d.workflowRegistry t) loaded
  | .request r c => AsksOnly (fun _ q => Call.OfRequest r q) c loaded
  | .heartbeat w c => AsksOnly (fun _ q => q = .transaction (.extendWorkflowLock w)) c loaded

/-- the transactions that a thread may issue -/
def Task.Issues (loaded : Loaded) (txn : Txn) : Task Val → Prop
  | .claiming worker row => txn = .claimNextWorkflow worker row
  | .run r => txn.OfRun r.workflowId r.wait? loaded
  | .request (.startWorkflow id name input) _ => txn = .createWorkflow id.text name input
  | .request (.sendSignal w T payload) _ => txn = .writeSignalAndWakeWorkflow w T payload
  | .heartbeat w _ => txn = .extendWorkflowLock w

theorem Task.Issues.cases {txn : Txn} {task : Task Val} (h : task.Issues L txn) :
    (∃ worker row, task = .claiming worker row ∧ txn = .claimNextWorkflow worker row)
    ∨ (∃ r, task = .run r ∧ txn.OfRun r.workflowId r.wait? L)
    ∨ (∃ id name input c, task = .request (.startWorkflow id name input) c
        ∧ txn = .createWorkflow id.text name input)
    ∨ (∃ w T payload c, task = .request (.sendSignal w T payload) c
        ∧ txn = .writeSignalAndWakeWorkflow w T payload)
    ∨ (∃ w c, task = .heartbeat w c ∧ txn = .extendWorkflowLock w) := by
  match task, h with
  | .claiming worker row, h => exact .inl ⟨worker, row, rfl, h⟩
  | .run r, h => exact .inr (.inl ⟨r, rfl, h⟩)
  | .request (.startWorkflow id name input) c, h =>
    exact .inr (.inr (.inl ⟨id, name, input, c, rfl, h⟩))
  | .request (.sendSignal w T payload) c, h =>
    exact .inr (.inr (.inr (.inl ⟨w, T, payload, c, rfl, h⟩)))
  | .heartbeat w c, h => exact .inr (.inr (.inr (.inr ⟨w, c, rfl, h⟩)))

theorem Task.Ok.mono {t : Nat} {task : Task Val} (hL : L ⊆ L') (h : task.Ok d t L) :
    task.Ok d t L' := by
  cases task with
  | claiming worker row => trivial
  | run r => exact Run.Ok.mono hL h
  | request r c => exact wp_rely (ρ := codeRules _) hL h
  | heartbeat w c => exact wp_rely (ρ := codeRules _) hL h

theorem Task.Ok.next {t : Nat} {task : Task Val} (h : task.Ok d t L)
    {n : (q : Call Val) × (q.Reply → Task Val)} (hn : task.next? d t = some n) :
    (∀ txn, n.1 = .transaction txn → task.Issues L txn)
      ∧ ∀ reply L', L ⊆ L' → n.1.Answered L' reply → (n.2 reply).Ok d t L' := by
  cases task with
  | claiming worker row =>
    obtain rfl := Option.some.inj hn
    refine ⟨fun txn htxn => ?_, fun reply L' _ _ => Run.ok_claimed worker row⟩
    exact (Call.transaction.inj htxn).symm
  | run r =>
    obtain ⟨m, hm, rfl⟩ := Option.map_eq_some_iff.mp hn
    obtain ⟨hask, hans⟩ := Run.Ok.next h hm
    refine ⟨fun txn htxn => ?_, hans⟩
    have : m.1 = .transaction txn := htxn
    rw [this] at hask
    exact hask
  | request r c =>
    obtain ⟨m, hm, rfl⟩ := Option.map_eq_some_iff.mp hn
    have hwp : wp _ c.run _ _ := h
    rw [Resumption.pending?_eq_some hm] at hwp
    refine ⟨fun txn htxn => ?_, fun reply L' hL hans => (wp_answer hwp ⟨hL, hans⟩).2⟩
    have hask : Call.OfRequest r m.1 := wp_ask hwp
    have : m.1 = .transaction txn := htxn
    rw [this] at hask
    cases r <;> exact hask
  | heartbeat w c =>
    obtain ⟨m, hm, rfl⟩ := Option.map_eq_some_iff.mp hn
    have hwp : wp _ c.run _ _ := h
    rw [Resumption.pending?_eq_some hm] at hwp
    refine ⟨fun txn htxn => ?_, fun reply L' hL hans => (wp_answer hwp ⟨hL, hans⟩).2⟩
    have hask : m.1 = .transaction (.extendWorkflowLock w) := wp_ask hwp
    have : m.1 = .transaction txn := htxn
    exact Call.transaction.inj (this.symm.trans hask)

/-! ## all threads -/

theorem Sys.effect_raised {t : Nat} {x : Tx} {stmt : Stmt} {error : PyExc}
    (h : s.effect d t x stmt = .raised error) : stmt.MayRaise error := by
  cases stmt with
  | insertEvent w i n ty payload =>
    cases payload with
    | error e =>
      simp only [Sys.effect, Effect.raised.injEq] at h
      exact h.symm
    | ok p =>
      simp only [Sys.effect] at h
      split at h
      · rename_i message _
        exact ⟨message, (Effect.raised.inj h).symm⟩
      · cases h
  | _ =>
    simp only [Sys.effect] at h
    repeat' split at h
    all_goals first
      | exact (Effect.raised.inj h).symm
      | cases h

theorem mayRaise_of_tx (hs : Reachable d ok s) {t : Nat} {x : Tx} (hx : s.tx? t = some x)
    {error : PyExc} (herr : x.result = .error error) : x.txn.MayRaise error := by
  refine (tx_invariant (P := fun x => x.Ok ∧ ∀ error, x.result = .error error →
    x.txn.MayRaise error) ?_ ?_ hs hx).2 error herr
  · exact fun txn now => ⟨Tx.ok_start txn now, nofun⟩
  · intro s t x x' stmt rest h hrest hafter
    refine ⟨h.1.after hrest hafter, fun error herr => ?_⟩
    rcases Tx.after_cases hafter with ⟨e, heff, rfl⟩ | ⟨-, rfl⟩ | ⟨-, rfl⟩
    · obtain rfl := Except.error.inj herr
      refine ⟨stmt, ?_, Sys.effect_raised heff⟩
      have horder := h.1.order (h.1.result_of_rest hrest)
      rw [hrest] at horder
      rw [← horder]
      exact List.mem_append_right _ List.mem_cons_self
    · cases herr
    · exact h.2 error herr

theorem Step.loaded_subset {l : Label Val} (h : Step d s l s') : s.loaded ⊆ s'.loaded := by
  cases h with
  | @read t task q k reply hth hq hreply =>
    show s.loaded ⊆ (s.noteLoad q).loaded
    cases q with
    | loadEventHistory w => exact List.subset_cons_self _ _
    | _ => exact List.Subset.refl _
  | _ => exact List.Subset.refl _

theorem Answers.answered (hs : Reachable d ok s) {t : Nat} {l : Label Val} {q : Call Val}
    {reply : q.Reply} (h : Answers s t l q reply s') {task : Task Val} {tx : Option Tx}
    {k : q.Reply → Task Val} (hth : s.threads[t]? = some ⟨task, tx, true⟩)
    (hq : task.next? d t = some ⟨q, k⟩) : q.Answered s'.loaded reply := by
  cases h with
  | @commit task' x txn k' hth' hrest =>
    intro error herr
    obtain rfl : task = task' := by
      rw [hth] at hth'
      exact congrArg Thread.task (Option.some.inj hth')
    obtain ⟨-, k'', hk⟩ := txn_of_thread hs hth' rfl
    rw [hq] at hk
    have htxn : txn = x.txn := by
      have := congrArg Sigma.fst (Option.some.inj hk)
      exact Call.transaction.inj this
    rw [htxn]
    exact mayRaise_of_tx hs (Sys.tx?_eq hth') herr
  | read hreply =>
    cases q with
    | loadEventHistory w =>
      obtain rfl := Option.some.inj hreply
      exact List.mem_cons_self
    | transaction txn => cases hreply
    | _ => trivial
  | body result => trivial

/-- **Every thread of a reachable state is at a point of its own code.** -/
theorem task_ok (hs : Reachable d ok s) {t : Nat} {th : Thread Val}
    (hth : s.threads[t]? = some th) : th.task.Ok d t s.loaded := by
  refine Reach.invariant_of_reach (I := fun s : Sys Val => ∀ t th, s.threads[t]? = some th →
    th.task.Ok d t s.loaded) ?_ ?_ hs t th hth
  · intro t th hth
    simp [Sys.initial] at hth
  · intro s l s' hr ih _ hl t th hth
    have hstep := Step.of_step hl
    have hL := hstep.loaded_subset
    rcases hstep.task_cases hth with ⟨th₀, hth₀, htask⟩ | ⟨-, hnew⟩
        | ⟨task, tx, q, k, reply, hth₀, hq, htask, hans⟩ | ⟨r, r', -, hth₀, hadv, htask⟩
    · rw [htask]
      exact (ih t th₀ hth₀).mono hL
    · obtain ⟨task, tx, alive⟩ := th
      cases hnew with
      | claiming worker row => trivial
      | request r => exact asksOnly_handleRequest r
      | heartbeat hth => exact asksOnly_extendLock _
    · rw [htask]
      exact ((ih t _ hth₀).next hq).2 reply s'.loaded hL (hans.answered hr hth₀ hq)
    · rw [htask]
      exact (Run.Ok.advance (ih t _ hth₀) hadv).mono hL

theorem issues_of_thread (hs : Reachable d ok s) {t : Nat} {th : Thread Val} {x : Tx}
    (hth : s.threads[t]? = some th) (hx : th.tx = some x) : th.task.Issues s.loaded x.txn := by
  obtain ⟨-, k, hk⟩ := txn_of_thread hs hth hx
  exact ((task_ok hs hth).next hk).1 x.txn rfl

end

end TemporalLight
