import TemporalLight.Engine

/-!
# The writing endpoints of the API and the lock heartbeat (api/server.py, worker/scheduler.py)

`start_workflow` gets its id from `uuid4`; all that is known of it is that its text, hexadecimal
digits and hyphens, has no colon.
-/

namespace TemporalLight

/-- the answer of an endpoint; `detail` is empty on success -/
structure Response where
  statusCode : Nat
  detail : String

/-- `str(uuid.uuid4())` -/
structure Uuid where
  text : String
  no_colon : ':' ∉ text.toList

inductive Request where
  | startWorkflow (workflowId : Uuid) (workflowName : String) (workflowInput : Json)
  | sendSignal (workflowId signalType : String) (payload : Json)

section
variable {Val : Type}

def startWorkflow (workflowId : Uuid) (workflowName : String) (workflowInput : Json) :
    Engine Val Response := do
  let _ ← transaction (.createWorkflow workflowId.text workflowName workflowInput)
  return ⟨201, ""⟩

def sendSignal (workflowId signalType : String) (payload : Json) : Engine Val Response := do
  match ← getWorkflow workflowId with
  | none => return ⟨404, "Workflow not found."⟩
  | some record =>
    if record.status != .running && record.status != .waiting then
      return ⟨409, "Workflow is not running (status=" ++ record.status.value ++ ")."⟩
    let _ ← transaction (.writeSignalAndWakeWorkflow workflowId signalType payload)
    return ⟨204, ""⟩

def handleRequest : Request → Engine Val Response
  | .startWorkflow workflowId workflowName workflowInput =>
    startWorkflow workflowId workflowName workflowInput
  | .sendSignal workflowId signalType payload => sendSignal workflowId signalType payload

/-- one round of `_workflow_lock_heartbeat_loop` -/
def extendLock (workflowId : String) : Engine Val Unit := do
  let _ ← transaction (.extendWorkflowLock workflowId)

end

end TemporalLight
