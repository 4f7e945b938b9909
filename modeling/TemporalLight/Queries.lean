import TemporalLight.Context

/-!
# The database operations (db/queries.py)

A `Stmt` is one SQL statement.  A `Txn` is one call of a function of queries.py that writes, and
`Txn.statements` lists its statements in the order of the source; a function without
`connection.transaction()` is a transaction of one statement.  The two mark-waiting functions
differ in their `SELECT EXISTS` only; these are predicates over `jsonb` (`completionMatches`,
`signalMatches`), written with the SQL operators and not with the finders of the Python code.

An `INSERT` into a table with a foreign key is two statements here: the row is inserted and, for an
event, takes its id from the sequence; then `foreignKey` checks the referenced row and locks it KEY
SHARE, which may have to wait.

A payload is `Except PyExc Json`: `json.dumps` may raise on a value of the workflow code, and then
the `INSERT` that should have sent it raises.
-/

namespace TemporalLight

/-- `payload->>'signal_type' = '__child_completed__' AND payload->'payload'->>'child_id' = $4` -/
def completionMatches (render : Json → String) (workflowId childId : String)
    (event : EventRecord) : Bool :=
  event.workflowId == workflowId && event.eventType == .signal
    && Json.arrowText render (some event.payload) "signal_type" == some childCompletedSignalType
    && Json.arrowText render (Json.arrow (some event.payload) "payload") "child_id" == some childId

/-- `payload->>'signal_type' = $3 AND payload->>'status' IS DISTINCT FROM 'waiting'` -/
def signalMatches (render : Json → String) (workflowId signalType : String)
    (event : EventRecord) : Bool :=
  event.workflowId == workflowId && event.eventType == .signal
    && Json.arrowText render (some event.payload) "signal_type" == some signalType
    && Json.arrowText render (some event.payload) "status" != some "waiting"

/-- the `SELECT EXISTS` of `mark_workflow_waiting_for_child` or `mark_workflow_waiting_for_signal` -/
def answerMatches (render : Json → String) (workflowId : String) : Wait → EventRecord → Bool
  | .child childId => completionMatches render workflowId childId
  | .signal signalType => signalMatches render workflowId signalType

/-- the `SET` list of an `UPDATE workflows` -/
inductive Change where
  | lock (workerIdentifier : String)
  | waiting (wait : Wait)
  | runAt (time : Int)
  | terminal (status : WorkflowStatus)
  | wake
  | extendLock

inductive Stmt where
  | insertWorkflow (workflowId name : String)
  /-- `ON CONFLICT (workflow_id) DO NOTHING`; the function returns `False` on a conflict -/
  | insertChildWorkflow (workflowId name parentId : String)
  | insertEvent (workflowId : String) (stepIndex : Int) (stepName : String)
      (eventType : EventType) (payload : Except PyExc Json)
  /-- the end of an `INSERT`: the row it references must exist and is locked KEY SHARE -/
  | foreignKey (workflowId : String)
  | selectForUpdate (workflowId : String)
  /-- `SELECT EXISTS ...`; the function returns `False` when there is such a row -/
  | returnIfAnswered (workflowId : String) (wait : Wait)
  /-- `SELECT * ... FOR UPDATE SKIP LOCKED`, returning `row` -/
  | selectClaimable (row : WorkflowRecord)
  | update (workflowId : String) (change : Change)
  | notify (workflowId : String)

/-- one call of a writing function of queries.py -/
inductive Txn where
  | createWorkflow (workflowId workflowName : String) (workflowInput : Json)
  | createChildWorkflow (parentWorkflowId childWorkflowId childWorkflowName : String)
      (childWorkflowInput : Except PyExc Json) (parentStepIndex : Nat)
  | claimNextWorkflow (workerIdentifier : String) (row : WorkflowRecord)
  | markWorkflowWaiting (workflowId : String) (wait : Wait)
  | updateWorkflowRunAt (workflowId : String) (runAt : Int)
  | completeWorkflow (workflowId : String) (result : Except PyExc Json)
      (parentInfo : Option ParentInfo)
  | failWorkflow (workflowId errorMessage : String) (parentInfo : Option ParentInfo)
  | extendWorkflowLock (workflowId : String)
  /-- the `INSERT` of `write_event`; its `pg_notify` is a statement of its own -/
  | insertEvent (workflowId : String) (stepIndex : Int) (stepName : String)
      (eventType : EventType) (payload : Except PyExc Json)
  | writeSignalAndWakeWorkflow (workflowId signalType : String) (signalPayload : Json)

def markWorkflowWaitingForChild (workflowId childId : String) : Txn :=
  .markWorkflowWaiting workflowId (.child childId)

def markWorkflowWaitingForSignal (workflowId signalType : String) : Txn :=
  .markWorkflowWaiting workflowId (.signal signalType)

/-- the child's end as the parent's log records it -/
def childSignalPayload (parentInfo : ParentInfo) (childStatus : String)
    (outcome : String × Json) : Json :=
  .obj [("signal_type", .str childCompletedSignalType),
    ("payload", .obj [("child_id", .str parentInfo.childId), ("status", .str childStatus), outcome])]

/-- `INSERT INTO events` -/
def insertInto (workflowId : String) (stepIndex : Int) (stepName : String)
    (eventType : EventType) (payload : Except PyExc Json) : List Stmt :=
  [.insertEvent workflowId stepIndex stepName eventType payload, .foreignKey workflowId]

/-- `_write_terminal_workflow_event`; `outcome` is `('result', result)` or `('error', error)` -/
def writeTerminalWorkflowEvent (workflowId : String) (eventType : EventType)
    (outcome : Except PyExc (String × Json)) (status : WorkflowStatus)
    (parentInfo : Option ParentInfo) (childStatus : String) : List Stmt :=
  insertInto workflowId (-1) "workflow" eventType (outcome.map fun o => .obj [o])
  ++ [.update workflowId (.terminal status)]
  ++ (match parentInfo with
    | none => []
    | some parent =>
      insertInto parent.workflowId (-1) "signal" .signal
        (outcome.map (childSignalPayload parent childStatus))
      ++ [.update parent.workflowId .wake, .notify parent.workflowId])
  ++ [.notify workflowId]

def Txn.statements : Txn → List Stmt
  | .createWorkflow workflowId workflowName workflowInput =>
    [.insertWorkflow workflowId workflowName]
    ++ insertInto workflowId (-1) "workflow" .started (.ok (.obj [("input", workflowInput)]))
  | .createChildWorkflow parentWorkflowId childWorkflowId childWorkflowName childWorkflowInput
      parentStepIndex =>
    [.insertChildWorkflow childWorkflowId childWorkflowName parentWorkflowId,
      .foreignKey parentWorkflowId]
    ++ insertInto childWorkflowId (-1) "workflow" .started
      (childWorkflowInput.map fun input => .obj [("input", input),
        ("parent", .obj [("workflow_id", .str parentWorkflowId),
          ("child_id", .str childWorkflowId)])])
    ++ insertInto parentWorkflowId parentStepIndex childWorkflowName .childStarted
      (childWorkflowInput.map fun input => .obj [("child_id", .str childWorkflowId),
        ("workflow_name", .str childWorkflowName), ("input", input)])
    ++ [.notify parentWorkflowId]
  | .claimNextWorkflow workerIdentifier row =>
    [.selectClaimable row, .update row.workflowId (.lock workerIdentifier)]
  | .markWorkflowWaiting workflowId wait =>
    [.selectForUpdate workflowId,
      .returnIfAnswered workflowId wait,
      .update workflowId (.waiting wait)]
  | .updateWorkflowRunAt workflowId runAt => [.update workflowId (.runAt runAt)]
  | .completeWorkflow workflowId result parentInfo =>
    writeTerminalWorkflowEvent workflowId .workflowCompleted
      (result.map fun r => ("result", r)) .completed parentInfo "completed"
  | .failWorkflow workflowId errorMessage parentInfo =>
    writeTerminalWorkflowEvent workflowId .workflowFailed
      (.ok ("error", .str errorMessage)) .failed parentInfo "failed"
  | .extendWorkflowLock workflowId => [.update workflowId .extendLock]
  | .insertEvent workflowId stepIndex stepName eventType payload =>
    insertInto workflowId stepIndex stepName eventType payload
  | .writeSignalAndWakeWorkflow workflowId signalType signalPayload =>
    insertInto workflowId (-1) "signal" .signal
      (.ok (.obj [("signal_type", .str signalType), ("payload", signalPayload)]))
    ++ [.update workflowId .wake, .notify workflowId]

/-- a `Change` with its times filled in -/
inductive RowUpdate where
  | lock (workerIdentifier : String) (until_ : Int)
  | waiting (wait : Wait)
  | runAt (time : Int)
  | terminal (status : WorkflowStatus)
  | wake (now : Int)
  | extendLock (until_ : Int)

/-- `now` is SQL's `NOW()`, the start of the transaction; `clock` is the time of the statement -/
def Change.resolve (lockDuration now clock : Int) : Change → RowUpdate
  | .lock workerIdentifier => .lock workerIdentifier (clock + lockDuration * 1000000)
  | .waiting wait => .waiting wait
  | .runAt time => .runAt time
  | .terminal status => .terminal status
  | .wake => .wake now
  | .extendLock => .extendLock (now + lockDuration * 1000000)

def RowUpdate.apply : RowUpdate → WorkflowRecord → WorkflowRecord
  | .lock workerIdentifier until_, row =>
    { row with lockedBy := some workerIdentifier, lockedUntil := some until_ }
  | .waiting _, row => { row with status := .waiting, lockedBy := none, lockedUntil := none }
  | .runAt time, row => { row with runAt := time, lockedBy := none, lockedUntil := none }
  | .terminal status, row => { row with status := status, lockedBy := none, lockedUntil := none }
  | .wake now, row => { row with runAt := now, status := .running }
  | .extendLock until_, row => { row with lockedUntil := some until_ }

@[simp] theorem RowUpdate.apply_workflowId (u : RowUpdate) (row : WorkflowRecord) :
    (u.apply row).workflowId = row.workflowId := by
  cases u <;> rfl

@[simp] theorem RowUpdate.apply_name (u : RowUpdate) (row : WorkflowRecord) :
    (u.apply row).name = row.name := by
  cases u <;> rfl

@[simp] theorem RowUpdate.apply_parentId (u : RowUpdate) (row : WorkflowRecord) :
    (u.apply row).parentId = row.parentId := by
  cases u <;> rfl

/-- row locks: KEY SHARE by an insert that references the row, NO KEY UPDATE by `UPDATE`,
FOR UPDATE by `SELECT ... FOR UPDATE` -/
inductive LockMode where
  | keyShare
  | noKeyUpdate
  | forUpdate
  deriving DecidableEq

def LockMode.conflicts : LockMode → LockMode → Bool
  | .keyShare, .keyShare => false
  | .keyShare, .noKeyUpdate => false
  | .noKeyUpdate, .keyShare => false
  | _, _ => true

/-- the row lock a statement takes -/
def Stmt.lock? : Stmt → Option (String × LockMode)
  | .foreignKey workflowId => some (workflowId, .keyShare)
  | .selectForUpdate workflowId => some (workflowId, .forUpdate)
  | .selectClaimable row => some (row.workflowId, .forUpdate)
  | .update workflowId _ => some (workflowId, .noKeyUpdate)
  | _ => none

theorem LockMode.conflicts_comm (m m' : LockMode) : m.conflicts m' = m'.conflicts m := by
  cases m <;> cases m' <;> rfl

end TemporalLight
