import TemporalLight.Server
import TemporalLight.Library.ById
import TemporalLight.Library.Rows
import TemporalLight.Library.Runs

/-!
# The whole system: one database, any number of threads

The committed tables, and the threads that work on them: claims and runs of workflows by the
workers, the heartbeats of these runs, requests to the API.  A step is one SQL statement, one
`COMMIT`, one read, one end of an activity body, one silent step of a run, a crash, or the passing
of time, so every interleaving of statements is a run of this system.

Postgres at READ COMMITTED: a statement sees the rows committed when it starts; an event gets its
id from the sequence when it is inserted and becomes visible at commit; a row lock is held until
the end of the transaction, and a statement that needs a lock held in a conflicting mode has to
wait; `NOW()` is the start of the transaction.

The last three fields of `Sys` are bookkeeping for the proofs, no step reads them: `lease w` is the
run whose claim of `w` has neither been given up nor been replaced by another claim, `waits w` are
the waits that have marked the row `w` since it last became WAITING, `loaded` are the histories
read so far.
-/

namespace TemporalLight
open Runs

/-- a transaction in flight -/
structure Tx where
  txn : Txn
  /-- `NOW()` -/
  now : Int
  executed : List Stmt
  rest : List Stmt
  inserted : List EventRecord
  created : List WorkflowRecord
  updates : List (String × RowUpdate)
  result : Except PyExc Bool

def Tx.locks (x : Tx) : List (String × LockMode) := x.executed.filterMap Stmt.lock?

/-- the part of `_run_workflow` that a run is in -/
inductive Code (Val : Type) where
  | starting (c : Engine Val (Option (Program Val × WorkflowContext)))
  | stepping (c : Engine Val Val)
  | ending (c : Engine Val Unit)
  | ended

/-- `_run_workflow` on a claimed workflow; `delivered` is what the awaits of the workflow function
have delivered so far -/
structure Run (Val : Type) where
  worker : String
  record : WorkflowRecord
  program : Program Val
  context : WorkflowContext
  delivered : List (Outcome Val)
  code : Code Val

def Run.workflowId {Val : Type} (r : Run Val) : String := r.record.workflowId

inductive Task (Val : Type) where
  | claiming (worker : String) (row : WorkflowRecord)
  | run (r : Run Val)
  | request (r : Request) (c : Engine Val Response)
  | heartbeat (workflowId : String) (c : Engine Val Unit)

structure Thread (Val : Type) where
  task : Task Val
  tx : Option Tx
  alive : Bool

structure Sys (Val : Type) where
  clock : Int
  /-- the sequence behind `events.id` -/
  nextId : Nat
  workflows : List WorkflowRecord
  /-- the committed events in the order of their ids -/
  events : List EventRecord
  threads : List (Thread Val)
  lease : String → Option Nat
  waits : String → List Wait
  loaded : List (String × List EventRecord)

section
variable {Val : Type}

/-! ## runs -/

/-- the workflow function has been given `delivered`: go on to its next await, or to its end -/
def Run.resume (rt : Runtime Val) (r : Run Val) : Run Val :=
  let action := r.program r.delivered
  if action.isEnd then { r with code := .ending (finishRun rt r.context action) }
  else { r with
    code := .stepping (executeStep rt r.context action),
    context := r.context.nextStepIndex.2 }

/-- a run that has just been claimed -/
def Run.claimed (registry : String → Option (Json → Program Val)) (worker : String)
    (record : WorkflowRecord) : Run Val where
  worker := worker
  record := record
  program := fun _ => .raise (.other "" "")
  context := ⟨record.workflowId, [], none, 0⟩
  delivered := []
  code := .starting (startRun registry record)

/-- a silent step: the current part of the run has come to its value -/
def Run.advance (rt : Runtime Val) (r : Run Val) : Option (Run Val) :=
  match r.code with
  | .starting c => c.run.value?.map fun
    | .ok (some (program, context)) =>
      Run.resume rt { r with program := program, context := context, delivered := [] }
    | _ => { r with code := .ended }
  | .stepping c => c.run.value?.map fun outcome =>
      Run.resume rt { r with delivered := r.delivered ++ [outcome] }
  | .ending c => c.run.value?.map fun _ => { r with code := .ended }
  | .ended => none

/-- the call a run waits for, and the run after the reply -/
def Run.next? (r : Run Val) : Option ((q : Call Val) × (q.Reply → Run Val)) :=
  match r.code with
  | .starting c => c.run.pending?.map fun n =>
      ⟨n.1, fun reply => { r with code := .starting (n.2 reply) }⟩
  | .stepping c => c.run.pending?.map fun n =>
      ⟨n.1, fun reply => { r with code := .stepping (n.2 reply) }⟩
  | .ending c => c.run.pending?.map fun n =>
      ⟨n.1, fun reply => { r with code := .ending (n.2 reply) }⟩
  | .ended => none

def Run.isEnded (r : Run Val) : Bool :=
  match r.code with
  | .ended => true
  | _ => false

/-- the call the task of thread `t` waits for, and the task after the reply -/
def Task.next? (d : Deployment Val) (t : Nat) :
    Task Val → Option ((q : Call Val) × (q.Reply → Task Val))
  | .claiming worker row => some ⟨.transaction (.claimNextWorkflow worker row),
      fun _ => .run (Run.claimed (d.workflowRegistry t) worker row)⟩
  | .run r => r.next?.map fun n => ⟨n.1, fun reply => .run (n.2 reply)⟩
  | .request r c => c.run.pending?.map fun n => ⟨n.1, fun reply => .request r (n.2 reply)⟩
  | .heartbeat w c => c.run.pending?.map fun n => ⟨n.1, fun reply => .heartbeat w (n.2 reply)⟩

/-! ## the committed tables -/

def Sys.initial : Sys Val where
  clock := 0
  nextId := 1
  workflows := []
  events := []
  threads := []
  lease := fun _ => none
  waits := fun _ => []
  loaded := []

/-- the committed row of a workflow -/
def Sys.row? (s : Sys Val) (workflowId : String) : Option WorkflowRecord :=
  Rows.lookup WorkflowRecord.workflowId s.workflows workflowId

/-- `SELECT * FROM events WHERE workflow_id = $1 ORDER BY id` -/
def Sys.history (s : Sys Val) (workflowId : String) : List EventRecord :=
  s.events.filter fun e => e.workflowId == workflowId

/-- the reply to a call that only reads -/
def Sys.reply? (s : Sys Val) : (q : Call Val) → Option q.Reply
  | .loadEventHistory workflowId => some (s.history workflowId)
  | .getWorkflow workflowId => some (s.row? workflowId)
  | .now => some s.clock
  | .pgNotify _ => some ()
  | .runActivityBody _ _ _ _ => none
  | .transaction _ => none

def Sys.noteLoad (s : Sys Val) : Call Val → Sys Val
  | .loadEventHistory workflowId =>
    { s with loaded := (workflowId, s.history workflowId) :: s.loaded }
  | _ => s

/-! ## threads -/

/-- the transaction that thread `t` has open -/
def Sys.tx? (s : Sys Val) (t : Nat) : Option Tx := s.threads[t]?.bind (·.tx)

/-- the living thread `t` -/
def Sys.thread? (s : Sys Val) (t : Nat) : Option (Thread Val) := s.threads[t]?.filter (·.alive)

def Sys.setThread (s : Sys Val) (t : Nat) (thread : Thread Val) : Sys Val :=
  { s with threads := s.threads.set t thread }

def Sys.setNextId (s : Sys Val) (nextId : Nat) : Sys Val := { s with nextId := nextId }

def Sys.spawn (s : Sys Val) (task : Task Val) : Sys Val :=
  { s with threads := s.threads ++ [⟨task, none, true⟩] }

/-- `p` holds of the transaction of every thread but `t` -/
def Sys.allOthers (s : Sys Val) (t : Nat) (p : Tx → Bool) : Bool :=
  (List.range s.threads.length).all fun u => u == t || (s.tx? u).all p

/-- no other transaction holds a lock that conflicts with this one -/
def Sys.lockable (s : Sys Val) (t : Nat) (workflowId : String) (mode : LockMode) : Bool :=
  s.allOthers t fun x => x.locks.all fun l => l.1 != workflowId || !mode.conflicts l.2

/-- no other transaction has inserted a row with this key -/
def Sys.keyFree (s : Sys Val) (t : Nat) (workflowId : String) : Bool :=
  s.allOthers t fun x => x.created.all fun row => row.workflowId != workflowId

/-! ## statements -/

/-- the `WHERE` clause of `claim_next_workflow` -/
def claimable (now : Int) (row : WorkflowRecord) : Bool :=
  decide (row.runAt ≤ now) && row.status == .running
    && (row.lockedBy.isNone || row.lockedUntil.any fun lockedUntil => decide (lockedUntil < now))

/-- `row` is what `SELECT ... ORDER BY run_at LIMIT 1 FOR UPDATE SKIP LOCKED` may return -/
def Sys.selectable (s : Sys Val) (t : Nat) (now : Int) (row : WorkflowRecord) : Bool :=
  s.row? row.workflowId == some row && claimable now row
    && s.lockable t row.workflowId .forUpdate
    && s.workflows.all fun other =>
      !(claimable now other && s.lockable t other.workflowId .forUpdate)
        || decide (row.runAt ≤ other.runAt)

def uniqueViolation : PyExc := .other "UniqueViolationError" "duplicate key value"
def dataError (message : String) : PyExc := .other "DataError" message
def foreignKeyViolation : PyExc := .other "ForeignKeyViolationError" "key is not present"

/-- a row that has just been inserted -/
def newRow (workflowId name : String) (parentId : Option String) (now : Int) :
    WorkflowRecord where
  workflowId := workflowId
  name := name
  status := .running
  parentId := parentId
  runAt := now
  lockedBy := none
  lockedUntil := none

/-- what becomes of a statement: it has to wait for a lock, it raises, it makes the function return
`False`, or it is done and has changed nothing, inserted an event or a row, or updated a row -/
inductive Effect where
  | blocked
  | raised (error : PyExc)
  | returned
  | none
  | event (entry : Entry)
  | row (row : WorkflowRecord)
  | update (workflowId : String) (update : RowUpdate)

/-- one statement of thread `t` in its transaction `x` -/
def Sys.effect (d : Deployment Val) (s : Sys Val) (t : Nat) (x : Tx) : Stmt → Effect
  | .insertWorkflow workflowId name =>
    if (s.row? workflowId).isSome then .raised uniqueViolation
    else if s.keyFree t workflowId then .row (newRow workflowId name none x.now)
    else .blocked
  | .insertChildWorkflow workflowId name parentId =>
    if (s.row? workflowId).isSome then .returned
    else if s.keyFree t workflowId then .row (newRow workflowId name (some parentId) x.now)
    else .blocked
  | .insertEvent workflowId stepIndex stepName eventType payload =>
    match payload with
    | .error error => .raised error
    | .ok payload => match d.jsonbRejects payload with
      | some message => .raised (dataError message)
      | none => .event ⟨workflowId, stepIndex, stepName, eventType, payload⟩
  | .foreignKey workflowId =>
    if (s.row? workflowId).isNone && x.created.all (fun row => row.workflowId != workflowId) then
      .raised foreignKeyViolation
    else if s.lockable t workflowId .keyShare then .none
    else .blocked
  | .selectForUpdate workflowId =>
    if s.lockable t workflowId .forUpdate then .none else .blocked
  | .returnIfAnswered workflowId wait =>
    if s.events.any (answerMatches d.jsonbText workflowId wait) then .returned else .none
  | .selectClaimable row =>
    if s.selectable t x.now row then .none else .blocked
  | .update workflowId change =>
    if s.lockable t workflowId .noKeyUpdate then
      .update workflowId (change.resolve d.lockDurationSeconds x.now s.clock)
    else .blocked
  | .notify _ => .none

def Tx.start (txn : Txn) (now : Int) : Tx where
  txn := txn
  now := now
  executed := []
  rest := txn.statements
  inserted := []
  created := []
  updates := []
  result := .ok true

def Effect.event? : Effect → Option Entry
  | .event entry => some entry
  | _ => Option.none

def Effect.row? : Effect → Option WorkflowRecord
  | .row r => some r
  | _ => Option.none

def Effect.update? : Effect → Option (String × RowUpdate)
  | .update w u => some (w, u)
  | _ => Option.none

/-- the transaction after its next statement `stmt`, when `rest` comes after it -/
def Tx.after (x : Tx) (stmt : Stmt) (rest : List Stmt) (nextId : Nat) : Effect → Option Tx
  | .blocked => none
  -- the transaction will roll back: its locks stay, its writes are gone
  | .raised error => some { x with
      rest := [], inserted := [], created := [], updates := [], result := .error error }
  | .returned => some { x with rest := [], result := .ok false }
  | effect => some { x with
      executed := x.executed ++ [stmt], rest := rest,
      inserted := x.inserted ++ effect.event?.toList.map fun entry => ⟨entry, nextId, x.now⟩,
      created := x.created ++ effect.row?.toList,
      updates := x.updates ++ effect.update?.toList }

/-- the sequence behind `events.id` after a statement -/
def Effect.nextId (nextId : Nat) (effect : Effect) : Nat := nextId + effect.event?.toList.length

/-! ## commit -/

def applyUpdates (rows : List WorkflowRecord) (updates : List (String × RowUpdate)) :
    List WorkflowRecord :=
  updates.foldl (fun rows u => Rows.modify WorkflowRecord.workflowId u.1 u.2.apply rows) rows

/-- who holds the lease after an update by thread `t` -/
def RowUpdate.leaseAfter (t : Nat) (holder : Option Nat) : RowUpdate → Option Nat
  | .lock _ _ => some t
  | .waiting _ => none
  | .runAt _ => none
  | .terminal _ => none
  | .wake _ => holder
  | .extendLock _ => holder

def leaseAfter (t : Nat) (lease : String → Option Nat) (updates : List (String × RowUpdate)) :
    String → Option Nat :=
  updates.foldl (fun l u w => if w = u.1 then u.2.leaseAfter t (l w) else l w) lease

def waitsAfter (status : String → Option WorkflowStatus) (waits : String → List Wait)
    (updates : List (String × RowUpdate)) : String → List Wait :=
  updates.foldl (fun ws u w => match u.2 with
    | .waiting wait => if w = u.1 then wait :: (if status w = some .waiting then ws w else [])
        else ws w
    | _ => ws w) waits

/-- the end of the transaction `x` of thread `t`: its writes become visible -/
def Sys.publish (s : Sys Val) (t : Nat) (x : Tx) : Sys Val :=
  { s with
    workflows := applyUpdates (s.workflows ++ x.created) x.updates,
    events := ById.insertAll EventRecord.eventId s.events x.inserted,
    lease := leaseAfter t s.lease x.updates,
    waits := waitsAfter (fun w => (s.row? w).map (·.status)) s.waits x.updates }

/-! ## steps -/

inductive Label (Val : Type) where
  | tick (duration : Nat)
  | claim (worker : String) (row : WorkflowRecord)
  | request (r : Request)
  | heartbeat (t : Nat)
  | begin (t : Nat)
  | execute (t : Nat)
  | commit (t : Nat)
  | read (t : Nat)
  | body (t : Nat) (result : Except PyExc Val)
  | advance (t : Nat)
  | crash (t : Nat)

def Uuid.w : Uuid := ⟨"w", by decide⟩

/-- thread `t` executes a transaction of `n` statements -/
def transact (t n : Nat) : List (Label Val) :=
  .begin t :: (List.replicate n (.execute t) ++ [.commit t])

def Sys.step (d : Deployment Val) (s : Sys Val) : Label Val → Option (Sys Val)
  | .tick duration => some { s with clock := s.clock + duration }
  | .claim worker row => some (s.spawn (.claiming worker row))
  | .request r => some (s.spawn (.request r (handleRequest r)))
  | .heartbeat t => match s.thread? t with
    | some ⟨.run r, _, _⟩ =>
      if r.isEnded then none
      else some (s.spawn (.heartbeat r.workflowId (extendLock r.workflowId)))
    | _ => none
  | .begin t => match s.thread? t with
    | some ⟨task, none, _⟩ => match task.next? d t with
      | some ⟨.transaction txn, _⟩ =>
        some (s.setThread t ⟨task, some (Tx.start txn s.clock), true⟩)
      | _ => none
    | _ => none
  | .execute t => match s.thread? t with
    | some ⟨task, some x, _⟩ => match x.rest with
      | stmt :: rest =>
        let effect := s.effect d t x stmt
        (x.after stmt rest s.nextId effect).map fun x' =>
          (s.setThread t ⟨task, some x', true⟩).setNextId (effect.nextId s.nextId)
      | [] => none
    | _ => none
  | .commit t => match s.thread? t with
    | some ⟨task, some x, _⟩ => match x.rest, task.next? d t with
      | [], some ⟨.transaction _, k⟩ => some ((s.publish t x).setThread t ⟨k x.result, none, true⟩)
      | _, _ => none
    | _ => none
  | .read t => match s.thread? t with
    | some ⟨task, none, _⟩ => match task.next? d t with
      | some ⟨q, k⟩ =>
        (s.reply? q).map fun reply => (s.noteLoad q).setThread t ⟨k reply, none, true⟩
      | none => none
    | _ => none
  | .body t result => match s.thread? t with
    | some ⟨task, none, _⟩ => match task.next? d t with
      | some ⟨.runActivityBody _ _ _ _, k⟩ => some (s.setThread t ⟨k result, none, true⟩)
      | _ => none
    | _ => none
  | .advance t => match s.thread? t with
    | some ⟨.run r, none, _⟩ =>
      (r.advance d.toRuntime).map fun r' => s.setThread t ⟨.run r', none, true⟩
    | _ => none
  | .crash t => (s.thread? t).map fun thread => s.setThread t ⟨thread.task, none, false⟩

/-- the states reached from the empty database by steps that satisfy `ok` -/
abbrev Reachable (d : Deployment Val) (ok : Sys Val → Label Val → Prop) (s : Sys Val) : Prop :=
  Reach (Sys.step d) ok Sys.initial s

end

end TemporalLight
