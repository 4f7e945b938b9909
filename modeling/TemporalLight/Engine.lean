import TemporalLight.Program
import TemporalLight.Library.Resumption

/-!
# One workflow run (worker/executor.py, sleep.py, children.py, signals.py, worker/runner.py)

The Python coroutines, as resumptions that ask `Call`s; a Python exception is an `Except` value.
The index of a step is `ctx.stepCounter`, which the run increments at every step
(`WorkflowContext.nextStepIndex`).  An activity body runs in the worker's process pool, where no
workflow context is visible, so all the engine sees of it is its result.
-/

namespace TemporalLight

/-- engine code: it asks calls, and may raise -/
abbrev Engine (Val α : Type) := ExceptT PyExc (Resumption (Call Val) Call.Reply) α

section
variable {Val : Type}

/-! ## calls -/

def loadEventHistory (workflowId : String) : Engine Val (List EventRecord) :=
  ExceptT.lift (Resumption.ask (.loadEventHistory workflowId : Call Val))

def getWorkflow (workflowId : String) : Engine Val (Option WorkflowRecord) :=
  ExceptT.lift (Resumption.ask (.getWorkflow workflowId : Call Val))

/-- `datetime.now(timezone.utc)` -/
def now : Engine Val Int :=
  ExceptT.lift (Resumption.ask (.now : Call Val))

/-- `_run_activity_body`; an exception of the body is the `Except` value of the reply -/
def runActivityBody (workflowId : String) (stepIndex : Nat) (function : ActivityFunction Val)
    (arguments : JsonSafe) : Engine Val (Except PyExc Val) :=
  ExceptT.lift (Resumption.ask (.runActivityBody workflowId stepIndex function arguments : Call Val))

def pgNotify (workflowId : String) : Engine Val Unit :=
  ExceptT.lift (Resumption.ask (.pgNotify workflowId : Call Val))

def transaction (txn : Txn) : Engine Val Bool :=
  ExceptT.mk (Resumption.ask (.transaction txn : Call Val))

/-- `write_event`: the `INSERT`, then the notification, each a statement of its own -/
def writeEvent (workflowId : String) (stepIndex : Int) (stepName : String)
    (eventType : EventType) (payload : Except PyExc Json) : Engine Val Unit := do
  let _ ← transaction (.insertEvent workflowId stepIndex stepName eventType payload)
  pgNotify workflowId

/-- `payload[key]` -/
def getItem (payload : Json) (key : String) : Except PyExc Json :=
  match payload.get? key with
  | some value => .ok value
  | none => .error (.other "KeyError" ("'" ++ key ++ "'"))

theorem getItem_of_get? {payload value : Json} {key : String} (h : payload.get? key = some value) :
    getItem payload key = .ok value := by
  rw [getItem, h]

/-! ## worker/executor.py -/

/-- `total_seconds()` of a difference of two times -/
def durationSeconds (duration : Int) : Json := .float (double (duration / 1000000))

/-- `_handle_activity_failure` -/
def handleActivityFailure (rt : Runtime Val) (ctx : WorkflowContext) (stepIndex : Nat)
    (function : ActivityFunction Val) (failedAttemptCount : Nat) (executionError : PyExc)
    (duration : Int) : Engine Val Unit := do
  let errorMessage ← ExceptT.mk (.pure (executionError.str rt.repr))
  writeEvent ctx.workflowId stepIndex function.qualname .failed
    (.ok (.obj [("error_type", .str executionError.typeName),
      ("error_message", .str errorMessage),
      ("attempt", .int failedAttemptCount),
      ("duration_seconds", durationSeconds duration)]))
  let attemptsUsed := failedAttemptCount + 1
  if attemptsUsed ≤ function.maxRetries then
    let time ← now
    let retryAt ← ExceptT.mk (.pure (timeAfter time function.backoffSeconds))
    let _ ← transaction (.updateWorkflowRunAt ctx.workflowId retryAt)
  else
    let _ ← transaction (.failWorkflow ctx.workflowId
      ("Activity '" ++ function.qualname ++ "' exhausted all " ++ toString function.maxRetries
        ++ " retries. Last error: " ++ executionError.typeName ++ ": " ++ errorMessage)
      ctx.parentInfo)

/-- the divergence checks of `execute_activity` against the SCHEDULED event of the step -/
def checkScheduled (rt : Runtime Val) (stepIndex : Nat) (function : ActivityFunction Val)
    (arguments : JsonSafe) (scheduledEvent : EventRecord) : Except PyExc Unit :=
  let stepName := function.qualname
  match getItem scheduledEvent.payload "step_name" with
  | .error error => .error error
  | .ok recordedStepName =>
  if !recordedStepName.pyEq (.str stepName) then
    .error (.divergenceError ("Step " ++ toString stepIndex ++ ": history recorded '"
      ++ PyExc.str.pyStr rt.repr recordedStepName
      ++ "' but code now calls '" ++ stepName
      ++ "'. Workflow code changed incompatibly while the workflow was in flight."))
  else
    let recorded := (scheduledEvent.payload.get? "input").getD .null
    match arguments.differs recorded with
    | .error error => .error error
    | .ok false => .ok ()
    | .ok true => match arguments.repr rt.repr with
      | .error error => .error error
      | .ok text => .error (.divergenceError ("Step " ++ toString stepIndex
        ++ ": history recorded input arguments " ++ rt.repr recorded
        ++ " but code now calls '" ++ stepName ++ "' with " ++ text
        ++ ". Activity input arguments changed while the workflow was in flight. "
        ++ "If the workflow code did not change intentionally, this is a strong signal of "
        ++ "non-deterministic workflow code outside an activity."))

/-- `execute_activity` after the replay and divergence checks: run the body, record its end -/
def runAttempt (rt : Runtime Val) (ctx : WorkflowContext) (stepIndex : Nat)
    (function : ActivityFunction Val) (arguments : JsonSafe) : Engine Val Val := do
  let failedAttemptCount := ctx.countFailedEvents stepIndex
  let startedAt ← now
  match ← runActivityBody ctx.workflowId stepIndex function arguments with
  | .error executionError =>
    if executionError.isException then
      let duration := (← now) - startedAt
      handleActivityFailure rt ctx stepIndex function failedAttemptCount executionError duration
      throw (.workflowSuspended ("Activity '" ++ function.qualname ++ "' failed on attempt "
        ++ toString failedAttemptCount ++ "."))
    else throw executionError
  | .ok result =>
    let duration := (← now) - startedAt
    writeEvent ctx.workflowId stepIndex function.qualname .completed
      ((rt.dumps result).map fun serializedResult => .obj [("result", serializedResult),
        ("duration_seconds", durationSeconds duration),
        ("attempts_total", .int (failedAttemptCount + 1))])
    return result

/-- `execute_activity` -/
def executeActivity (rt : Runtime Val) (ctx : WorkflowContext) (function : ActivityFunction Val)
    (arguments : Except PyExc JsonSafe) : Engine Val Val := do
  let stepIndex := ctx.nextStepIndex.1
  match ctx.findCompletedEvent stepIndex with
  | some completedEvent =>
    ExceptT.mk (.pure (getItem completedEvent.payload "result" >>= function.fromJsonSafe))
  | none =>
    let serializableArguments ← ExceptT.mk (.pure arguments)
    match ctx.findScheduledEvent stepIndex with
    | some scheduledEvent =>
      ExceptT.mk (.pure (checkScheduled rt stepIndex function serializableArguments scheduledEvent))
    | none =>
      writeEvent ctx.workflowId stepIndex function.qualname .scheduled
        (serializableArguments.dumps.map fun input =>
          .obj [("step_name", .str function.qualname), ("input", input)])
    runAttempt rt ctx stepIndex function serializableArguments

/-! ## sleep.py -/

/-- `existing_sleep_event.payload['wakeup_at']` -/
def wakeupAtRaw (sleepEvent : EventRecord) : String :=
  match sleepEvent.payload.get? "wakeup_at" with
  | some (.str s) => s
  | _ => ""

/-- `total_seconds`; each operation rounds to a double -/
def totalSeconds (seconds minutes hours days : ℚ) : ℚ :=
  double (double (double (seconds + double (minutes * 60)) + double (hours * 3600))
    + double (days * 86400))

def sleep (rt : Runtime Val) (ctx : WorkflowContext) (seconds minutes hours days : ℚ) :
    Engine Val Val := do
  let stepIndex := ctx.nextStepIndex.1
  match ctx.findEvent stepIndex .sleep with
  | some existingSleepEvent =>
    let wakeupAt := rt.fromisoformat (wakeupAtRaw existingSleepEvent)
    if wakeupAt ≤ (← now) then
      return rt.ofJson .null
    else
      let _ ← transaction (.updateWorkflowRunAt ctx.workflowId wakeupAt)
      throw (.workflowSuspended ("Re-suspended sleep at step " ++ toString stepIndex ++ "."))
  | none =>
    let time ← now
    let wakeupAt ← ExceptT.mk (.pure (timeAfter time (totalSeconds seconds minutes hours days)))
    writeEvent ctx.workflowId stepIndex "sleep" .sleep
      (.ok (.obj [("wakeup_at", .str (rt.isoformat wakeupAt))]))
    let _ ← transaction (.updateWorkflowRunAt ctx.workflowId wakeupAt)
    throw (.workflowSuspended ("Workflow sleeping until " ++ rt.isoformat wakeupAt ++ "."))

/-! ## children.py -/

/-- `f'{workflow_id}:{step_index}'` -/
def childWorkflowId (workflowId : String) (stepIndex : Nat) : String :=
  workflowId ++ ":" ++ toString stepIndex

def spawnChild (rt : Runtime Val) (ctx : WorkflowContext) (workflowName : String)
    (kwargs : Except PyExc Json) : Engine Val Val := do
  let stepIndex := ctx.nextStepIndex.1
  match ctx.findChildStartedEvent stepIndex with
  | some existingChildStartedEvent =>
    ExceptT.mk (.pure ((getItem existingChildStartedEvent.payload "child_id").map rt.ofJson))
  | none =>
    let resolvedChildId := childWorkflowId ctx.workflowId stepIndex
    let _ ← transaction
      (.createChildWorkflow ctx.workflowId resolvedChildId workflowName kwargs stepIndex)
    return rt.ofJson (.str resolvedChildId)

/-- `_child_signal_result` -/
def childSignalResult (rt : Runtime Val) (event : EventRecord) : Except PyExc Val :=
  let payload := (event.payload.get? "payload").getD (.obj [])
  if payload.getIs "status" "completed" then
    .ok (rt.ofJson ((payload.get? "result").getD .null))
  else if payload.getIs "status" "failed" then
    .error (.childWorkflowFailedError ((payload.get? "child_id").getD (.str "<unknown>"))
      ((payload.get? "error").getD (.str "Unknown child workflow error")))
  else
    .error (.childWorkflowFailedError ((payload.get? "child_id").getD (.str "<unknown>"))
      (.str ("Unknown child workflow status '"
        ++ PyExc.str.pyStr rt.repr ((payload.get? "status").getD .null) ++ "'.")))

theorem childSignalResult_error {rt : Runtime Val} {event : EventRecord} {error : PyExc}
    (h : childSignalResult rt event = .error error) :
    ∃ childId message, error = .childWorkflowFailedError childId message := by
  unfold childSignalResult at h
  dsimp only at h
  split at h
  · cases h
  · split at h <;> cases h <;> exact ⟨_, _, rfl⟩

/-! ## signals.py -/

/-- `signal_event.payload.get('payload')` -/
def signalPayload (rt : Runtime Val) (event : EventRecord) : Val :=
  rt.ofJson ((event.payload.get? "payload").getD .null)

/-! ## waiting (children.py, signals.py)

`wait_for_child` and `wait_for_signal` are one program with their own finders, markers and texts.
-/

def Wait.outcome (rt : Runtime Val) : Wait → EventRecord → Except PyExc Val
  | .child _, event => childSignalResult rt event
  | .signal _, event => .ok (signalPayload rt event)

def Wait.hasMarker : Wait → List EventRecord → Bool
  | .child childId, events => hasWaitingChildMarker events childId
  | .signal signalType, events => hasWaitingSignalMarker events signalType

/-- `step_name` of the marker -/
def Wait.markerName : Wait → String
  | .child _ => "child"
  | .signal signalType => signalType

def Wait.markerPayload : Wait → Json
  | .child childId => .obj [("signal_type", .str childCompletedSignalType),
      ("status", .str "waiting"), ("child_id", .str childId)]
  | .signal signalType => .obj [("signal_type", .str signalType), ("status", .str "waiting")]

def Wait.mark (workflowId : String) : Wait → Txn
  | .child childId => markWorkflowWaitingForChild workflowId childId
  | .signal signalType => markWorkflowWaitingForSignal workflowId signalType

def Wait.suspensionText : Wait → String
  | .child childId => "Workflow waiting for child '" ++ childId ++ "'."
  | .signal signalType => "Workflow waiting for signal '" ++ signalType ++ "'."

/-- mark the row WAITING and suspend, unless the answer has arrived meanwhile -/
def suspendUnlessAnswered (rt : Runtime Val) (ctx : WorkflowContext) (wait : Wait) :
    Engine Val Val := do
  let markedWaiting ← transaction (wait.mark ctx.workflowId)
  if !markedWaiting then
    let freshHistory ← loadEventHistory ctx.workflowId
    match freshHistory.find? wait.isAnswer with
    | some freshAnswer => return ← ExceptT.mk (.pure (wait.outcome rt freshAnswer))
    | none => pure ()
  throw (.workflowSuspended wait.suspensionText)

def waitFor (rt : Runtime Val) (ctx : WorkflowContext) (wait : Wait) : Engine Val Val := do
  match ctx.eventHistory.find? wait.isAnswer with
  | some answer => ExceptT.mk (.pure (wait.outcome rt answer))
  | none =>
    if !wait.hasMarker ctx.eventHistory then
      writeEvent ctx.workflowId (-1) wait.markerName .signal (.ok wait.markerPayload)
    suspendUnlessAnswered rt ctx wait

def waitForChild (rt : Runtime Val) (ctx : WorkflowContext) (childId : String) :
    Engine Val Val :=
  waitFor rt ctx (.child childId)

def waitForSignal (rt : Runtime Val) (ctx : WorkflowContext) (signalType : String) :
    Engine Val Val :=
  waitFor rt ctx (.signal signalType)

/-! ## worker/runner.py -/

/-- the await of an action; `ret` and `raise` are no awaits -/
def executeStep (rt : Runtime Val) (ctx : WorkflowContext) : Action Val → Engine Val Val
  | .activity function arguments => executeActivity rt ctx function arguments
  | .sleep seconds minutes hours days => sleep rt ctx seconds minutes hours days
  | .spawnChild workflowName kwargs => spawnChild rt ctx workflowName kwargs
  | .waitForChild childId => waitForChild rt ctx childId
  | .waitForSignal signalType => waitForSignal rt ctx signalType
  | .ret _ => return rt.ofJson .null
  | .raise error => throw error

/-- the `parent` object of a STARTED payload -/
def parentInfoOf (payload : Json) : Option ParentInfo :=
  match payload.get? "parent" with
  | some parent => match parent.get? "workflow_id", parent.get? "child_id" with
    | some (.str workflowId), some (.str childId) => some ⟨workflowId, childId⟩
    | _, _ => none
  | none => none

/-- `_run_workflow` up to the call of the workflow function -/
def startRun (registry : String → Option (Json → Program Val)) (record : WorkflowRecord) :
    Engine Val (Option (Program Val × WorkflowContext)) := do
  let eventHistory ← loadEventHistory record.workflowId
  match eventHistory.find? fun e => e.eventType == .started with
  | none =>
    let _ ← transaction (.failWorkflow record.workflowId
      "STARTED event is missing — workflow row is corrupt." none)
    return none
  | some startedEvent =>
    let workflowInput := (startedEvent.payload.get? "input").getD (.obj [])
    let parentInfo := parentInfoOf startedEvent.payload
    match registry record.name with
    | none =>
      let _ ← transaction (.failWorkflow record.workflowId
        ("No workflow named '" ++ record.name ++ "' is registered with this worker.") parentInfo)
      return none
    | some workflowFunction =>
      return some (workflowFunction workflowInput,
        { workflowId := record.workflowId, eventHistory := eventHistory,
          parentInfo := parentInfo, stepCounter := 0 })

/-- the text recorded for a workflow that ends by an exception -/
def failureMessage (rt : Runtime Val) : PyExc → Except PyExc String
  | .divergenceError message => .ok ("Divergence: " ++ message)
  | error => (error.str rt.repr).map fun text =>
      "Unhandled exception in workflow code: " ++ error.typeName ++ ": " ++ text

/-- `_run_workflow` after the workflow function has returned or raised -/
def finishRun (rt : Runtime Val) (ctx : WorkflowContext) : Action Val → Engine Val Unit
  | .raise (.workflowSuspended _) => return ()
  | .raise error =>
    if error.isException then do
      let errorMessage ← ExceptT.mk (.pure (failureMessage rt error))
      let _ ← transaction (.failWorkflow ctx.workflowId errorMessage ctx.parentInfo)
    else throw error
  | .ret result => do
    let _ ← transaction (.completeWorkflow ctx.workflowId result ctx.parentInfo)
  | _ => return ()

end

end TemporalLight
