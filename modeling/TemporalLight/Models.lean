import TemporalLight.Json
import Mathlib.Data.Rat.Floor

/-!
# Records of the engine

The rows of the tables `workflows` and `events` (db/schema.sql, models.py) and the exceptions that
cross the engine.  `created_at`, `updated_at` and the table `workers` are left out: no modelled
function reads them.  Times are `Int`, microseconds since 1970 on one clock.
-/

namespace TemporalLight

/-- `CHILD_COMPLETED_SIGNAL_TYPE` -/
def childCompletedSignalType : String := "__child_completed__"

inductive WorkflowStatus where
  | running
  | waiting
  | completed
  | failed
  deriving DecidableEq

def WorkflowStatus.value : WorkflowStatus → String
  | .running => "running"
  | .waiting => "waiting"
  | .completed => "completed"
  | .failed => "failed"

/-- a workflow in such a status is over -/
def WorkflowStatus.isTerminal : WorkflowStatus → Bool
  | .completed => true
  | .failed => true
  | _ => false

inductive EventType where
  | started
  | scheduled
  | completed
  | failed
  | sleep
  | signal
  | childStarted
  | workflowCompleted
  | workflowFailed
  deriving DecidableEq

/-- the event types that end a log (`_TERMINAL_EVENT_TYPES`) -/
def EventType.isTerminal : EventType → Bool
  | .workflowCompleted => true
  | .workflowFailed => true
  | _ => false

/-- a row of the table `workflows` -/
structure WorkflowRecord where
  workflowId : String
  name : String
  status : WorkflowStatus
  parentId : Option String
  runAt : Int
  lockedBy : Option String
  lockedUntil : Option Int
  deriving DecidableEq

/-- what an `INSERT INTO events` says; `payload` is decoded JSON, `.null` for Python's `None` -/
structure Entry where
  workflowId : String
  stepIndex : Int
  stepName : String
  eventType : EventType
  payload : Json

/-- a row of the table `events` -/
structure EventRecord extends Entry where
  eventId : Nat
  timestamp : Int

/-- the `parent` object of a child's STARTED event -/
structure ParentInfo where
  workflowId : String
  childId : String
  deriving DecidableEq

/-- the exceptions of exceptions.py, and any other by the name of its class and its text -/
inductive PyExc where
  | workflowSuspended (message : String)
  | divergenceError (message : String)
  | childWorkflowFailedError (childId error : Json)
  | other (typeName message : String)
  /-- its `__str__` raises an exception itself -/
  | textless (typeName : String) (raised : PyExc)
  /-- a `BaseException` that is no `Exception`, such as `CancelledError` -/
  | baseException (typeName message : String)

/-- `type(error).__name__` -/
def PyExc.typeName : PyExc → String
  | .workflowSuspended _ => "WorkflowSuspended"
  | .divergenceError _ => "DivergenceError"
  | .childWorkflowFailedError _ _ => "ChildWorkflowFailedError"
  | .other typeName _ => typeName
  | .textless typeName _ => typeName
  | .baseException typeName _ => typeName

/-- `str(error)`; `text` is Python's `str` of a JSON value that is no string -/
def PyExc.str (text : Json → String) : PyExc → Except PyExc String
  | .workflowSuspended message => .ok message
  | .divergenceError message => .ok message
  | .childWorkflowFailedError childId error =>
    .ok ("Child workflow " ++ pyStr text childId ++ " failed: " ++ pyStr text error)
  | .other _ message => .ok message
  | .textless _ raised => .error raised
  | .baseException _ message => .ok message
where
  pyStr (text : Json → String) : Json → String
    | .str s => s
    | j => text j

/-- a suspension is not an error -/
def PyExc.isSuspension : PyExc → Bool
  | .workflowSuspended _ => true
  | _ => false

def PyExc.isTextless : PyExc → Bool
  | .textless _ _ => true
  | _ => false

/-- making its text raises `WorkflowSuspended` -/
def PyExc.textSuspends : PyExc → Bool
  | .textless _ raised => raised.isSuspension
  | _ => false

theorem PyExc.textless_of_str {text : Json → String} {error raised : PyExc}
    (h : error.str text = .error raised) : ∃ typeName, error = .textless typeName raised := by
  cases error with
  | textless typeName raised' =>
    cases h
    exact ⟨typeName, rfl⟩
  | _ => cases h

/-- `except Exception` catches it -/
def PyExc.isException : PyExc → Bool
  | .baseException _ _ => false
  | _ => true

/-! ## durations -/

def roundHalfEven (x : ℚ) : Int :=
  let below := x.floor
  let part := x - below
  if part < 1 / 2 then below
  else if 1 / 2 < part then below + 1
  else if below % 2 = 0 then below else below + 1

/-- the double that is nearest to `x`, ties to even; the largest exponent is not looked at -/
def double (x : ℚ) : ℚ :=
  let above : Int := Nat.log2 x.num.natAbs - Nat.log2 x.den
  let exponent := if (2 : ℚ) ^ above ≤ |x| then above else above - 1
  let unit : ℚ := 2 ^ max (exponent - 52) (-1074)
  roundHalfEven (x / unit) * unit

/-- microseconds in so many seconds; the fraction of a second is multiplied as a double -/
def microseconds (seconds : ℚ) : Int :=
  let whole := if 0 ≤ seconds then seconds.floor else seconds.ceil
  roundHalfEven (whole * 1000000 + double ((seconds - whole) * 1000000))

/-- `timedelta(seconds=...)`, in microseconds -/
def timedelta (seconds : ℚ) : Except PyExc Int :=
  if (microseconds seconds / 86400000000).natAbs ≤ 999999999 then .ok (microseconds seconds)
  else .error (.other "OverflowError" ("days=" ++ toString (microseconds seconds / 86400000000)
    ++ "; must have magnitude <= 999999999"))

/-- `datetime + timedelta`, within the years 1 to 9999 -/
def addTimedelta (time duration : Int) : Except PyExc Int :=
  if -62135596800000000 ≤ time + duration ∧ time + duration < 253402300800000000 then
    .ok (time + duration)
  else .error (.other "OverflowError" "date value out of range")

/-- `time + timedelta(seconds=...)` -/
def timeAfter (time : Int) (seconds : ℚ) : Except PyExc Int :=
  timedelta seconds >>= addTimedelta time

theorem timeAfter_ok {time later : Int} {seconds : ℚ} (h : timeAfter time seconds = .ok later) :
    ∃ duration, timedelta seconds = .ok duration ∧ later = time + duration := by
  rw [timeAfter] at h
  cases hd : timedelta seconds with
  | error e =>
    rw [hd] at h
    cases h
  | ok duration =>
    rw [hd] at h
    refine ⟨duration, rfl, ?_⟩
    have h : addTimedelta time duration = .ok later := h
    rw [addTimedelta] at h
    split at h <;> cases h
    rfl

theorem timeAfter_error {time : Int} {seconds : ℚ} {error : PyExc}
    (h : timeAfter time seconds = .error error) :
    ∃ message, error = .other "OverflowError" message := by
  rw [timeAfter] at h
  cases hd : timedelta seconds with
  | error e =>
    rw [hd] at h
    cases h
    rw [timedelta] at hd
    split at hd <;> cases hd
    exact ⟨_, rfl⟩
  | ok duration =>
    rw [hd] at h
    have h : addTimedelta time duration = .error error := h
    rw [addTimedelta] at h
    split at h <;> cases h
    exact ⟨_, rfl⟩

end TemporalLight
