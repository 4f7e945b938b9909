import TemporalLight.Calls
import TemporalLight.Origins
import TemporalLight.Library.Lockstep

/-!
# Activities in a pool and in the process (worker/executor.py)

With an activity executor the body of an activity runs in a subprocess, outside the context of the
workflow: a decorated activity that it calls is called directly, and an exception comes back as
`ActivitySubprocessError`.  Without one the body runs where the workflow runs, so its exceptions are
its own, and a decorated activity that it calls is a step of the workflow.

`runWorkflow` is a whole run: `startRun`, the awaits of the function, `finishRun`.  Its calls are
those of `Engine.lean`; the answer to `_run_activity_body` is how the body ends.

* `Body.run`       a body in the process, which counts the steps of the activities it calls
* `Entry.Agrees`   two events that differ by the time they took and by the class of an exception
* `pooled_agrees`  bodies that call no activity leave the same log, in a pool or not
* `pooled_differs` the other bodies do not
-/

namespace TemporalLight
open Resumption

section
variable {Val α : Type}

/-! ## bodies -/

/-- the part of an activity body that concerns the workflow: it calls another decorated activity and
goes on with its outcome, or it comes to its end without a further call -/
inductive Body (Val : Type) where
  | ends
  | calls (function : ActivityFunction Val) (arguments : Except PyExc JsonSafe) (callee : Body Val)
      (rest : Outcome Val → Body Val)

/-- `c` with its `_run_activity_body` done by `body`, when `stepCounter` stands at `n` -/
def runBodies (body : Resumption (Call Val) Call.Reply (Except PyExc Val) → Nat →
      Resumption (Call Val) Call.Reply (Except PyExc Val × Nat)) :
    Resumption (Call Val) Call.Reply α → Nat → Resumption (Call Val) Call.Reply (α × Nat)
  | .pure a, n => .pure (a, n)
  | .call (.runActivityBody w i f args) k, n =>
    body (ask (Call.runActivityBody w i f args)) n >>= fun r => runBodies body (k r.1) r.2
  | .call q k, n => .call q fun reply => runBodies body (k reply) n

/-- the body in the process of the workflow; `own` is its own end -/
def Body.run (rt : Runtime Val) (ctx : WorkflowContext) :
    Body Val → Resumption (Call Val) Call.Reply (Except PyExc Val) → Nat →
      Resumption (Call Val) Call.Reply (Except PyExc Val × Nat)
  | .ends, own, n => own >>= fun outcome => .pure (outcome, n)
  | .calls f args callee rest, own, n =>
    runBodies (fun own m => callee.run rt ctx own m)
      (executeActivity rt { ctx with stepCounter := n } f args).run (n + 1) >>= fun r =>
        (rest r.1).run rt ctx own r.2

/-- the class name and the text of an exception -/
structure Raised where
  typeName : String
  text : String

/-- those of `ActivitySubprocessError` -/
def Raised.inSubprocess (raised : Raised) : Raised :=
  ⟨"ActivitySubprocessError", raised.typeName ++ ": " ++ raised.text⟩

/-- `_execute_activity_in_subprocess`, from what the body has returned or raised -/
def inSubprocess (rt : Runtime Val) : Except PyExc Val → Except PyExc Val
  | .ok result => .ok result
  | .error error =>
    if error.isException then
      match error.str rt.repr with
      | .ok text =>
        let raised := Raised.inSubprocess ⟨error.typeName, text⟩
        .error (.other raised.typeName raised.text)
      -- `str(error)` raises in the `except` clause
      | .error textError => .error textError
    else .error error

/-- that of `asyncio.wait_for` -/
def timeoutError : PyExc := .other "TimeoutError" ""

/-- a body that ends the same way, without a pool and with one: `wait_for` stands outside the pool,
and an exception of the body has a text -/
inductive EndsAlike (rt : Runtime Val) : Except PyExc Val → Except PyExc Val → Prop where
  | body (outcome : Except PyExc Val) :
      (∀ error, outcome = .error error → ∃ text, error.str rt.repr = .ok text) →
      EndsAlike rt outcome (inSubprocess rt outcome)
  | timeout : EndsAlike rt (.error timeoutError) (.error timeoutError)

/-! ## a whole run -/

/-- the awaits of the workflow function, at most `fuel` of them -/
def runSteps (rt : Runtime Val) (program : Program Val) (ctx : WorkflowContext)
    (bodies : List (Outcome Val) → Body Val) :
    Nat → List (Outcome Val) → Nat → Resumption (Call Val) Call.Reply Unit
  | 0, _, _ => .pure ()
  | fuel + 1, delivered, n =>
    let action := program delivered
    if action.isEnd then (finishRun rt ctx action).run >>= fun _ => .pure ()
    else runBodies ((bodies delivered).run rt ctx)
      (executeStep rt { ctx with stepCounter := n } action).run (n + 1) >>= fun r =>
        runSteps rt program ctx bodies fuel (delivered ++ [r.1]) r.2

/-- what comes after `startRun` -/
def runStarted (rt : Runtime Val) (bodies : List (Outcome Val) → Body Val) (fuel : Nat) :
    Except PyExc (Option (Program Val × WorkflowContext)) → Resumption (Call Val) Call.Reply Unit
  | .ok (some (program, ctx)) => runSteps rt program ctx bodies fuel [] ctx.stepCounter
  | _ => .pure ()

/-- `_run_workflow`; `bodies` are those that run in the process, with a pool there are none -/
def runWorkflow (rt : Runtime Val) (registry : String → Option (Json → Program Val))
    (record : WorkflowRecord) (bodies : List (Outcome Val) → Body Val) (fuel : Nat) :
    Resumption (Call Val) Call.Reply Unit :=
  (startRun registry record).run >>= runStarted rt bodies fuel

def completedPayload (result : Json) (duration : Int) (attempts : Nat) : Json :=
  .obj [("result", result), ("duration_seconds", durationSeconds duration),
    ("attempts_total", .int (attempts + 1))]

def failedPayload (raised : Raised) (duration : Int) (attempt : Nat) : Json :=
  .obj [("error_type", .str raised.typeName), ("error_message", .str raised.text),
    ("attempt", .int attempt), ("duration_seconds", durationSeconds duration)]

def exhaustedMessage (f : ActivityFunction Val) (raised : Raised) : String :=
  "Activity '" ++ f.qualname ++ "' exhausted all " ++ toString f.maxRetries
    ++ " retries. Last error: " ++ raised.typeName ++ ": " ++ raised.text

/-- an exception is that of the body or `ActivitySubprocessError`, a `TimeoutError` is the same -/
inductive Raised.Agrees : Raised → Raised → Prop where
  | body (raised : Raised) : Agrees raised raised.inSubprocess
  | timeout : Agrees ⟨"TimeoutError", ""⟩ ⟨"TimeoutError", ""⟩

/-- the first event is written without a pool, the second one with a pool: the time an attempt took
may differ, and the exception -/
inductive Entry.Agrees : Entry → Entry → Prop where
  | same (e : Entry) : Agrees e e
  | completed {w n : String} {i : Int} (result : Json) (duration duration' : Int) (attempts : Nat) :
      Agrees ⟨w, i, n, .completed, completedPayload result duration attempts⟩
        ⟨w, i, n, .completed, completedPayload result duration' attempts⟩
  | failed {w n : String} {i : Int} {raised raised' : Raised} (h : raised.Agrees raised')
      (duration duration' : Int) (attempt : Nat) :
      Agrees ⟨w, i, n, .failed, failedPayload raised duration attempt⟩
        ⟨w, i, n, .failed, failedPayload raised' duration' attempt⟩
  | exhausted {Val : Type} {w n : String} {i : Int} (f : ActivityFunction Val)
      {raised raised' : Raised} (h : raised.Agrees raised') :
      Agrees ⟨w, i, n, .workflowFailed, .obj [("error", .str (exhaustedMessage f raised))]⟩
        ⟨w, i, n, .workflowFailed, .obj [("error", .str (exhaustedMessage f raised'))]⟩

/-- two transactions that record such events -/
inductive Txn.Agrees : Txn → Txn → Prop where
  | same (txn : Txn) : Agrees txn txn
  | insert {e e' : Entry} : e.Agrees e' →
      Agrees (.insertEvent e.workflowId e.stepIndex e.stepName e.eventType (.ok e.payload))
        (.insertEvent e'.workflowId e'.stepIndex e'.stepName e'.eventType (.ok e'.payload))
  | exhausted {Val : Type} {w : String} {parentInfo : Option ParentInfo}
      (f : ActivityFunction Val) {raised raised' : Raised} (h : raised.Agrees raised') :
      Agrees (.failWorkflow w (exhaustedMessage f raised) parentInfo)
        (.failWorkflow w (exhaustedMessage f raised') parentInfo)

inductive Call.Agrees : Call Val → Call Val → Prop where
  | same (q : Call Val) : Agrees q q
  | transaction {txn txn' : Txn} : txn.Agrees txn' → Agrees (.transaction txn) (.transaction txn')

/-! ## two logs -/

def Txn.owner : Txn → String
  | .createWorkflow workflowId _ _ => workflowId
  | .createChildWorkflow parentWorkflowId _ _ _ _ => parentWorkflowId
  | .claimNextWorkflow _ row => row.workflowId
  | .markWorkflowWaiting workflowId _ => workflowId
  | .updateWorkflowRunAt workflowId _ => workflowId
  | .completeWorkflow workflowId _ _ => workflowId
  | .failWorkflow workflowId _ _ => workflowId
  | .extendWorkflowLock workflowId => workflowId
  | .insertEvent workflowId _ _ _ _ => workflowId
  | .writeSignalAndWakeWorkflow workflowId _ _ => workflowId

def Txn.recorded (txn : Txn) : List Entry :=
  ((txn.statements.filterMap Stmt.event?).filter fun e => e.workflowId == txn.owner).take 1

def Call.recorded : (q : Call Val) → q.Reply → List Entry
  | .transaction txn, .ok true => txn.recorded
  | _, _ => []

def Call.timed : (q : Call Val) → q.Reply → Bool
  | .runActivityBody _ _ _ _, .ok _ => true
  | .runActivityBody _ _ _ _, .error error => error.isException
  | _, _ => false

/-- the logs of the workflow without and with a pool; `afterBody` when a body has just ended -/
structure Ledger where
  afterBody : Bool
  log : List Entry
  log' : List Entry

/-- the answers to two calls: a log is read as it is, a body ends alike, and the clocks agree but for
the reading after a body -/
def Ledger.answers (rt : Runtime Val) (s : Ledger) : (q q' : Call Val) → q.Reply → q'.Reply → Prop
  | .loadEventHistory _, .loadEventHistory _, history, history' =>
    history.map (·.toEntry) = s.log ∧ history'.map (·.toEntry) = s.log'
  | .getWorkflow _, .getWorkflow _, row, row' => row = row'
  | .now, .now, time, time' => s.afterBody = true ∨ time = time'
  | .runActivityBody _ _ _ _, .runActivityBody _ _ _ _, outcome, outcome' =>
    EndsAlike rt outcome outcome'
  | .pgNotify _, .pgNotify _, _, _ => True
  | .transaction _, .transaction _, result, result' => result = result'
  | _, _, _, _ => False

/-- the events of the workflow go to its log, and events from elsewhere (`others`) may join them -/
def poolRules (rt : Runtime Val) : PairRules (Call Val) Call.Reply Ledger where
  ask _ q q' := q.Agrees q'
  answer s q q' reply reply' s' := s.answers rt q q' reply reply' ∧ ∃ others,
    s' = ⟨q.timed reply, s.log ++ q.recorded reply ++ others, s.log' ++ q'.recorded reply' ++ others⟩

variable {rt : Runtime Val}

/-! ## what the finders find -/

theorem Entry.Agrees.eq {e e' : Entry} (h : e.Agrees e') (hcompleted : e.eventType ≠ .completed)
    (hfailed : e.eventType ≠ .failed) (hend : e.eventType ≠ .workflowFailed) : e' = e := by
  cases h with
  | same => rfl
  | completed => exact absurd rfl hcompleted
  | failed => exact absurd rfl hfailed
  | exhausted => exact absurd rfl hend

theorem Entry.Agrees.result {e e' : Entry} (h : e.Agrees e') (hcompleted : e.eventType = .completed) :
    e'.payload.get? "result" = e.payload.get? "result" := by
  cases h with
  | same => rfl
  | completed => rfl
  | failed => cases hcompleted
  | exhausted => cases hcompleted

abbrev HistoriesAgree (history history' : List EventRecord) : Prop :=
  List.Forall₂ (fun e e' => e.toEntry.Agrees e'.toEntry) history history'

variable {history history' : List EventRecord} {p : EventRecord → Bool}

theorem HistoriesAgree.find? (h : HistoriesAgree history history')
    (hp : ∀ e e' : EventRecord, e.toEntry.Agrees e'.toEntry → p e' = p e) :
    (history.find? p = none ∧ history'.find? p = none)
    ∨ ∃ e e', history.find? p = some e ∧ history'.find? p = some e'
      ∧ e.toEntry.Agrees e'.toEntry ∧ p e = true := by
  induction h with
  | nil => exact .inl ⟨rfl, rfl⟩
  | @cons e e' _ _ he _ ih =>
    rw [List.find?_cons, List.find?_cons, hp e e' he]
    cases hpe : p e with
    | true => exact .inr ⟨e, e', rfl, rfl, he, hpe⟩
    | false => exact ih

theorem HistoriesAgree.countP (h : HistoriesAgree history history')
    (hp : ∀ e e' : EventRecord, e.toEntry.Agrees e'.toEntry → p e' = p e) :
    history'.countP p = history.countP p := by
  induction h with
  | nil => rfl
  | @cons e e' _ _ he _ ih => rw [List.countP_cons, List.countP_cons, ih, hp e e' he]

theorem HistoriesAgree.any (h : HistoriesAgree history history')
    (hp : ∀ e e' : EventRecord, e.toEntry.Agrees e'.toEntry → p e' = p e) :
    history'.any p = history.any p := by
  induction h with
  | nil => rfl
  | @cons e e' _ _ he _ ih => rw [List.any_cons, List.any_cons, ih, hp e e' he]

theorem Txn.Agrees.recorded {txn txn' : Txn} (h : txn.Agrees txn') :
    List.Forall₂ Entry.Agrees txn.recorded txn'.recorded := by
  have hinsert (e : Entry) : Txn.recorded
      (.insertEvent e.workflowId e.stepIndex e.stepName e.eventType (.ok e.payload)) = [e] := by
    simp [Txn.recorded, Txn.statements, insertInto, Stmt.event?, Txn.owner]
  have hfail (w message : String) (parentInfo : Option ParentInfo) :
      Txn.recorded (.failWorkflow w message parentInfo)
        = [⟨w, -1, "workflow", .workflowFailed, .obj [("error", .str message)]⟩] := by
    unfold Txn.recorded Txn.statements
    rw [writeTerminal_entries]
    simp [Txn.owner]
  cases h with
  | same => exact List.forall₂_same.mpr fun e _ => .same e
  | insert he =>
    rw [hinsert, hinsert]
    exact .cons he .nil
  | exhausted f h =>
    rw [hfail, hfail]
    exact .cons (.exhausted f h) .nil

def Ledger.LogsAgree (s : Ledger) : Prop :=
  List.Forall₂ Entry.Agrees s.log s.log'

/-- between two calls of a step -/
structure Ledger.Ok (s : Ledger) : Prop where
  afterBody : s.afterBody = false
  agree : s.LogsAgree

/-- the two computations ask calls that agree, and their values belong together -/
def Agree {β : Type} (rt : Runtime Val) (P : α → β → Prop) (c : Engine Val α) (c' : Engine Val β) :
    Prop :=
  ∀ s : Ledger, s.Ok → Lockstep (poolRules rt) c.run c'.run
    (fun r r' s => s.Ok ∧ BothReturn P r r') s

variable {β γ δ : Type} {P : α → β → Prop} {P' : γ → δ → Prop}

theorem Agree.bind {c : Engine Val α} {c' : Engine Val β} {f : α → Engine Val γ}
    {f' : β → Engine Val δ} (h : Agree rt P c c')
    (hf : ∀ a b, P a b → Agree rt P' (f a) (f' b)) :
    Agree rt P' (c >>= f) (c' >>= f') :=
  fun s hs => Lockstep.run_bind (h s hs) fun a b s hs hab => hf a b hab s hs

variable {ctx : WorkflowContext}

end

/-! ## bodies that raise, and bodies that call -/

def activityNamed (name : String) : ActivityFunction Json where
  qualname := name
  maxRetries := 0
  backoffSeconds := 0
  fromJsonSafe := .ok

/-- `a`, then `c`; exceptions are passed on -/
def callsTwice : String → Option (Json → Program Json) := fun _ => some fun _ delivered =>
  match delivered with
  | [] => .activity (activityNamed "a") (.ok (.json (.obj [])))
  | [.ok _] => .activity (activityNamed "c") (.ok (.json (.obj [])))
  | [.error error] => .raise error
  | _ => .ret (.ok .null)

def startedEntry : Entry := ⟨"w", -1, "workflow", .started, .obj [("input", .obj [])]⟩

/-- the workflow has just been started, every body ends by `outcome` -/
def answersWith (outcome : Except PyExc Json) : (q : Call Json) → q.Reply
  | .loadEventHistory _ => [⟨startedEntry, 1, 0⟩]
  | .getWorkflow _ => none
  | .now => (0 : Int)
  | .runActivityBody _ _ _ _ => outcome
  | .pgNotify _ => ()
  | .transaction _ => .ok true

/-- step index, name, type and class of the exception of the events that a run writes -/
def written (bodies : List (Outcome Json) → Body Json) (outcome : Except PyExc Json) :
    List (Int × String × EventType × Option Bool) :=
  ((runWorkflow Runtime.plain callsTwice (newRow "w" "n" none 0) bodies 3).answered
      (answersWith outcome)).1.filterMap fun q => match q with
    | .transaction (.insertEvent _ i n ty (.ok payload)) =>
      some (i, n, ty, (payload.get? "error_type").map fun j => j.pyEq (.str "ActivitySubprocessError"))
    | _ => none

end TemporalLight
