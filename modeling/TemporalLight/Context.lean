import TemporalLight.Models

/-!
# The context of one workflow run (worker/context.py)

A run reads the event history once, when it starts, and answers every step from that snapshot.
The finders are written against the payload dictionaries, as in the source.  The finders of
answers and of markers exist twice in the source, as methods of the context and as functions of
children.py and signals.py, with the same tests; each test is here once.
-/

namespace TemporalLight

structure WorkflowContext where
  workflowId : String
  eventHistory : List EventRecord
  parentInfo : Option ParentInfo
  stepCounter : Nat

namespace WorkflowContext

def nextStepIndex (ctx : WorkflowContext) : Nat × WorkflowContext :=
  (ctx.stepCounter, { ctx with stepCounter := ctx.stepCounter + 1 })

def findEvent (ctx : WorkflowContext) (stepIndex : Nat) (eventType : EventType) :
    Option EventRecord :=
  ctx.eventHistory.find? fun event => event.stepIndex == (stepIndex : Int) && event.eventType == eventType

def findCompletedEvent (ctx : WorkflowContext) (stepIndex : Nat) : Option EventRecord :=
  ctx.findEvent stepIndex .completed

def findScheduledEvent (ctx : WorkflowContext) (stepIndex : Nat) : Option EventRecord :=
  ctx.findEvent stepIndex .scheduled

def findChildStartedEvent (ctx : WorkflowContext) (stepIndex : Nat) : Option EventRecord :=
  ctx.findEvent stepIndex .childStarted

def countFailedEvents (ctx : WorkflowContext) (stepIndex : Nat) : Nat :=
  ctx.eventHistory.countP fun event => event.stepIndex == (stepIndex : Int) && event.eventType == .failed

end WorkflowContext

/-- the event is a signal row with a payload -/
def EventRecord.isSignal (event : EventRecord) : Bool :=
  event.stepIndex == -1 && event.eventType == .signal

/-- the test of `find_child_result_signal` and `_find_child_result_signal` -/
def isChildResultSignal (childId : String) (event : EventRecord) : Bool :=
  event.isSignal && event.payload.getIs "signal_type" childCompletedSignalType
    && (match event.payload.get? "payload" with
      | some signalPayload => signalPayload.getIs "child_id" childId
      | none => false)

/-- the test of `find_signal_event` and `_find_received_signal` -/
def isReceivedSignal (signalType : String) (event : EventRecord) : Bool :=
  event.isSignal && event.payload.getIs "signal_type" signalType
    && !event.payload.getIs "status" "waiting"

/-- the test of `find_waiting_for_signal_event` -/
def isWaitingSignalMarker (signalType : String) (event : EventRecord) : Bool :=
  event.isSignal && event.payload.getIs "signal_type" signalType
    && event.payload.getIs "status" "waiting"

/-- the test of `_has_waiting_child_marker` -/
def isWaitingChildMarker (childId : String) (event : EventRecord) : Bool :=
  event.isSignal && event.payload.getIs "signal_type" childCompletedSignalType
    && event.payload.getIs "status" "waiting" && event.payload.getIs "child_id" childId

def hasWaitingSignalMarker (events : List EventRecord) (signalType : String) : Bool :=
  events.any (isWaitingSignalMarker signalType)

def hasWaitingChildMarker (events : List EventRecord) (childId : String) : Bool :=
  events.any (isWaitingChildMarker childId)

/-- what a run can wait for: a signal type, or the completion of a child -/
inductive Wait where
  | signal (signalType : String)
  | child (childId : String)
  deriving DecidableEq

def Wait.isAnswer : Wait → EventRecord → Bool
  | .signal signalType => isReceivedSignal signalType
  | .child childId => isChildResultSignal childId

end TemporalLight
