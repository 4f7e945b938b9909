import TemporalLight.Sse

/-!
# What `WorkflowHandle.result` reports (client.py)

`_result` opens up to three SSE connections, one after the other, and each of them delivers some
events of the log, until it ends.  A connection that ends is told from a terminal event by the
value of `_stream_until_terminal`, and `None` is both: the value at the end of a stream, and the
result of a workflow that has returned `None`.

* `streamUntilTerminal_eq`   one connection
* `resultLoop_eq`            all of them, when the first terminal event has a result
* `stream_unspoofed`         what one event says to the client, whatever its payload holds
* `result_reports`           so when the outcome is the recorded one
-/

namespace TemporalLight
open Runs

/-- the exceptions that `_result` catches, with their texts -/
inductive TransportError where
  | remoteProtocolError (message : String)
  | connectError (message : String)
  | readError (message : String)

/-- one SSE connection: the events whose `data` lines arrive, and then the error it is dropped by,
or none when it is closed -/
structure Connection where
  delivered : List EventRecord
  error : Option TransportError

/-- a `WorkflowFailedError`, with the recorded error, or with the text `SSE stream failed after 3
attempts: ...` -/
inductive ResultError where
  | workflowFailed (error : Json)
  | streamFailed (lastError : Option TransportError)

/-- how `_stream_until_terminal` ends -/
inductive StreamEnd where
  | returned (value : Json)
  | failed (error : Json)
  | dropped (error : TransportError)

/-- the loop over the lines of the stream; `None` is JSON's `null` -/
def readEvents (error : Option TransportError) : List Json → StreamEnd
  | [] => match error with
    | some error => .dropped error
    | none => .returned .null
  | eventData :: rest =>
    if eventData.getIs "type" "workflow_completed" then
      .returned ((eventData.get? "result").getD .null)
    else if eventData.getIs "type" "workflow_failed" then
      .failed ((eventData.get? "error").getD (.str "Unknown error"))
    else readEvents error rest

section
variable {Val : Type} (rt : Runtime Val)

/-- `_stream_until_terminal` -/
def streamUntilTerminal (connection : Connection) : StreamEnd :=
  readEvents connection.error (connection.delivered.map (eventToSsePayload rt))

/-- the loop of `_result` -/
def resultLoop (lastError : Option TransportError) : List Connection → Except ResultError Json
  | [] => .error (.streamFailed lastError)
  | connection :: rest => match streamUntilTerminal rt connection with
    | .returned .null => resultLoop lastError rest
    | .returned terminal => .ok terminal
    | .failed error => .error (.workflowFailed error)
    | .dropped error => resultLoop (some error) rest

def sseMaxAttempts : Nat := 3

/-- `_result`, when `connections` are those of its attempts -/
def result (connections : Nat → Connection) : Except ResultError Json :=
  resultLoop rt none ((List.range sseMaxAttempts).map connections)

/-! ## the recorded outcome -/

/-- what a terminal event says of its workflow -/
def EventRecord.outcome (e : EventRecord) : Except ResultError Json :=
  match e.eventType with
  | .workflowCompleted => .ok ((e.payload.get? "result").getD .null)
  | _ => .error (.workflowFailed ((e.payload.get? "error").getD .null))

def firstTerminal (connections : List Connection) : Option EventRecord :=
  (connections.flatMap Connection.delivered).find? fun e => e.eventType.isTerminal

/-- the outcome is the one of the first terminal event; without such an event the stream failed -/
def Reports (outcome : Except ResultError Json) : Option EventRecord → Prop
  | some e => outcome = e.outcome
  | none => ∃ lastError, outcome = .error (.streamFailed lastError)

/-! ## one connection -/

variable {rt} {d : Deployment Val} {s : Sys Val} {ok : Sys Val → Label Val → Prop}

def Entry.HasOutcome (e : Entry) : Prop :=
  match e.eventType with
  | .workflowCompleted => ∃ result, e.payload = .obj [("result", result)]
  | .workflowFailed => ∃ message, e.payload = .obj [("error", .str message)]
  | _ => True

theorem Entry.Ok.hasOutcome {e : Entry} (h : e.Ok) : e.HasOutcome := by
  unfold Entry.Ok at h
  unfold Entry.HasOutcome
  cases hty : e.eventType with
  | workflowCompleted =>
    rw [hty] at h
    exact h.2
  | workflowFailed =>
    rw [hty] at h
    exact h.2
  | _ => trivial

theorem type_getIs {e : EventRecord} (he : e.toEntry.KeepsColumns) (ty : EventType) :
    (eventToSsePayload rt e).getIs "type" ty.value = (e.eventType == ty) := by
  rw [Json.getIs, (eventToSsePayload_get? he).1]
  show (e.eventType.value == ty.value) = (e.eventType == ty)
  rw [Bool.eq_iff_iff, beq_iff_eq, beq_iff_eq]
  exact ⟨EventType.value_inj, congrArg EventType.value⟩

def EventRecord.streamEnd (e : EventRecord) : StreamEnd :=
  match e.eventType with
  | .workflowCompleted => .returned ((e.payload.get? "result").getD .null)
  | _ => .failed ((e.payload.get? "error").getD .null)

/-- the event is a row of the log as the engine writes it -/
structure EventRecord.WellFormed (e : EventRecord) : Prop where
  keeps : e.toEntry.KeepsColumns
  outcome : e.toEntry.HasOutcome

theorem payloadField_get? {e : EventRecord} {key : String} {value : Json}
    (h : e.payload = .obj [(key, value)]) : (eventToSsePayload rt e).get? key = some value := by
  rw [eventToSsePayload, h]
  exact (Dict.lookup_insert key).trans (if_pos (beq_self_eq_true key))

/-- a stream ends with its first terminal event -/
theorem readEvents_eq (error : Option TransportError) {delivered : List EventRecord}
    (h : ∀ e ∈ delivered, e.WellFormed) :
    readEvents error (delivered.map (eventToSsePayload rt))
      = match delivered.find? fun e => e.eventType.isTerminal with
        | some e => e.streamEnd
        | none => readEvents error [] := by
  induction delivered with
  | nil => rfl
  | cons e delivered ih =>
    obtain ⟨hkeeps, houtcome⟩ := h e List.mem_cons_self
    have ih := ih fun a ha => h a (List.mem_cons_of_mem _ ha)
    have htype (ty : EventType) :
        (eventToSsePayload rt e).getIs "type" ty.value = (e.eventType == ty) := type_getIs hkeeps ty
    rw [List.map_cons, readEvents]
    show (if (eventToSsePayload rt e).getIs "type" EventType.workflowCompleted.value then _
      else if (eventToSsePayload rt e).getIs "type" EventType.workflowFailed.value then _
      else _) = _
    rw [htype, htype, List.find?_cons]
    unfold Entry.HasOutcome at houtcome
    cases hty : e.eventType with
    | workflowCompleted =>
      rw [hty] at houtcome
      obtain ⟨result, hpayload⟩ := houtcome
      show StreamEnd.returned (((eventToSsePayload rt e).get? "result").getD .null) = e.streamEnd
      rw [payloadField_get? hpayload, EventRecord.streamEnd, hty, hpayload]
      rfl
    | workflowFailed =>
      rw [hty] at houtcome
      obtain ⟨message, hpayload⟩ := houtcome
      show StreamEnd.failed (((eventToSsePayload rt e).get? "error").getD (.str "Unknown error"))
        = e.streamEnd
      rw [payloadField_get? hpayload, EventRecord.streamEnd, hty, hpayload]
      rfl
    | _ => exact ih

/-- **No data in a payload changes what the stream says of an event**: the SSE object keeps the
fields of the row, and the client ends at the event if and only if the row is terminal, with the
result or the error of that row. -/
theorem stream_unspoofed (hs : Reachable d ok s) {e : EventRecord} (he : e ∈ s.events)
    (error : Option TransportError) (rest : List Json) :
    let eventData := eventToSsePayload d.toRuntime e
    (eventData.get? "type" = some (.str e.eventType.value)
      ∧ eventData.get? "step_index" = some (.int e.stepIndex)
      ∧ eventData.get? "step_name" = some (.str e.stepName)
      ∧ eventData.get? "timestamp" = some (.str (d.isoformat e.timestamp)))
    ∧ (e.eventType = .workflowCompleted → ∃ result, e.payload = .obj [("result", result)]
      ∧ readEvents error (eventData :: rest) = .returned result)
    ∧ (e.eventType = .workflowFailed → ∃ message, e.payload = .obj [("error", .str message)]
      ∧ readEvents error (eventData :: rest) = .failed (.str message))
    ∧ (e.eventType.isTerminal = false →
      readEvents error (eventData :: rest) = readEvents error rest) := by
  intro eventData
  have hkeeps : e.toEntry.KeepsColumns := keepsColumns hs he
  have houtcome : e.toEntry.HasOutcome := (entry_ok hs he).hasOutcome
  have htype (ty : EventType) : eventData.getIs "type" ty.value = (e.eventType == ty) :=
    type_getIs hkeeps ty
  have hcompleted : eventData.getIs "type" "workflow_completed" = _ := htype .workflowCompleted
  have hfailed : eventData.getIs "type" "workflow_failed" = _ := htype .workflowFailed
  unfold Entry.HasOutcome at houtcome
  refine ⟨eventToSsePayload_get? hkeeps, fun hty => ?_, fun hty => ?_, fun hty => ?_⟩
  · rw [hty] at houtcome
    obtain ⟨result, hpayload⟩ := houtcome
    have hget : eventData.get? "result" = some result := payloadField_get? hpayload
    refine ⟨result, hpayload, ?_⟩
    rw [readEvents, hcompleted, hty, if_pos (beq_self_eq_true _), hget]
    rfl
  · rw [hty] at houtcome
    obtain ⟨message, hpayload⟩ := houtcome
    have hget : eventData.get? "error" = some (.str message) := payloadField_get? hpayload
    refine ⟨message, hpayload, ?_⟩
    rw [readEvents, hcompleted, hfailed, hty, if_neg (by decide), if_pos (beq_self_eq_true _), hget]
    rfl
  · have hne (ty : EventType) (h : ty.isTerminal = true) : (e.eventType == ty) = false := by
      refine beq_false_of_ne fun heq => ?_
      rw [heq, h] at hty
      cases hty
    rw [readEvents, hcompleted, hfailed, hne _ rfl, hne _ rfl, if_neg (by decide),
      if_neg (by decide)]

/-! ## all attempts -/

/-- a workflow that has returned `None` -/
def EventRecord.isNullResult (e : EventRecord) : Prop :=
  e.eventType = .workflowCompleted ∧ e.payload.get? "result" = some .null

theorem firstTerminal_cons (connection : Connection) (rest : List Connection) :
    firstTerminal (connection :: rest)
      = (connection.delivered.find? fun e => e.eventType.isTerminal).or (firstTerminal rest) := by
  rw [firstTerminal, List.flatMap_cons, List.find?_append]
  rfl

theorem streamUntilTerminal_eq {connection : Connection}
    (h : ∀ e ∈ connection.delivered, e.WellFormed) :
    streamUntilTerminal rt connection
      = match connection.delivered.find? fun e => e.eventType.isTerminal with
        | some e => e.streamEnd
        | none => readEvents connection.error [] :=
  readEvents_eq connection.error h

theorem resultLoop_ne_null (lastError : Option TransportError) (connections : List Connection) :
    resultLoop rt lastError connections ≠ .ok .null := by
  induction connections generalizing lastError with
  | nil => exact nofun
  | cons connection rest ih =>
    rw [resultLoop]
    split
    · exact ih lastError
    · rename_i terminal hne _
      exact fun h => hne (Except.ok.inj h)
    · exact nofun
    · exact ih _

/-- the loop reports the first terminal event, if that is no `None` -/
theorem resultLoop_reports (lastError : Option TransportError) {connections : List Connection}
    (h : ∀ connection ∈ connections, ∀ e ∈ connection.delivered, e.WellFormed)
    (hnull : ∀ e, firstTerminal connections = some e → ¬e.isNullResult) :
    Reports (resultLoop rt lastError connections) (firstTerminal connections) := by
  induction connections generalizing lastError with
  | nil => exact ⟨lastError, rfl⟩
  | cons connection rest ih =>
    have hstream : streamUntilTerminal rt connection = _ :=
      streamUntilTerminal_eq (h connection List.mem_cons_self)
    have ih := fun lastError => ih lastError fun c hc => h c (List.mem_cons_of_mem _ hc)
    rw [firstTerminal_cons] at hnull ⊢
    rw [resultLoop, hstream]
    cases hfind : connection.delivered.find? fun e => e.eventType.isTerminal with
    | none =>
      rw [hfind] at hnull
      rw [Option.none_or]
      cases connection.error with
      | none => exact ih lastError hnull
      | some error => exact ih (some error) hnull
    | some e =>
      have hnull := hnull e (by rw [hfind, Option.some_or])
      rw [Option.some_or]
      obtain ⟨-, houtcome⟩ := h connection List.mem_cons_self e (List.mem_of_find?_eq_some hfind)
      have hterminal := List.find?_some hfind
      unfold Entry.HasOutcome at houtcome
      unfold Reports EventRecord.outcome
      dsimp only
      rw [EventRecord.streamEnd]
      cases hty : e.eventType with
      | workflowCompleted =>
        rw [hty] at houtcome
        obtain ⟨result, hpayload⟩ := houtcome
        have hresult : e.payload.get? "result" = some result := by
          rw [hpayload]
          rfl
        rw [hresult]
        cases result with
        | null => exact absurd ⟨hty, hresult⟩ hnull
        | _ => rfl
      | workflowFailed => rfl
      | _ =>
        simp [hty, EventType.isTerminal] at hterminal

/-- **The client reports the recorded outcome if and only if the first terminal event that arrives
is no WORKFLOW_COMPLETED with the result `None`.** -/
theorem result_reports (hs : Reachable d ok s) {w : String} {connections : Nat → Connection}
    (hdelivered : ∀ n < sseMaxAttempts, ∀ e ∈ (connections n).delivered, e ∈ s.history w) :
    let first := firstTerminal ((List.range sseMaxAttempts).map connections)
    Reports (result d.toRuntime connections) first ↔ ∀ e, first = some e → ¬e.isNullResult := by
  intro first
  have hwell : ∀ connection ∈ (List.range sseMaxAttempts).map connections,
      ∀ e ∈ connection.delivered, e.WellFormed := by
    intro connection hmem e he
    obtain ⟨n, hn, rfl⟩ := List.mem_map.mp hmem
    have hev := (Sys.mem_history.mp (hdelivered n (List.mem_range.mp hn) e he)).1
    exact ⟨keepsColumns hs hev, (entry_ok hs hev).hasOutcome⟩
  refine ⟨fun h e he hnull => ?_, fun h => resultLoop_reports none hwell h⟩
  rw [he] at h
  refine resultLoop_ne_null none _ (h.trans ?_)
  rw [EventRecord.outcome, hnull.1, hnull.2]
  rfl

end

/-! ## a workflow without a result -/

/-- `n` returns 7, and every other workflow `None` -/
def returnsSeven : Deployment Json :=
  .plain fun name => some fun _ _ => .ret (.ok (if name == "n" then .int 7 else .null))

def completes (name : String) : List (Label Json) :=
  [.request (.startWorkflow .w name (.obj []))] ++ transact 0 3
    ++ [.claim "A" (newRow "w" name none 0)] ++ transact 1 2 ++ [.read 1, .advance 1]
    ++ transact 1 4

/-- the first connection is dropped at once, the second delivers the whole log -/
def dropsOnce (log : List EventRecord) : Nat → Connection
  | 0 => ⟨[], some (.readError "")⟩
  | _ => ⟨log, none⟩

/-- the first terminal event of `w`, when its result passes the test -/
def Sys.completed? (s : Sys Json) (test : Json → Bool) : Option EventRecord :=
  ((s.history "w").find? fun e => e.eventType.isTerminal).filter fun e =>
    e.eventType == .workflowCompleted && (e.payload.get? "result").any test

def isSeven : Json → Bool
  | .int 7 => true
  | _ => false

def isNull : Json → Bool
  | .null => true
  | _ => false

theorem result_reports_once : ∃ (s : Sys Json) (e : EventRecord), e ∈ s.history "w"
    ∧ (e.payload.get? "result").any isSeven = true
    ∧ result Runtime.plain (dropsOnce (s.history "w")) = e.outcome := by
  have hrun : (follow (Sys.step returnsSeven) (fun _ _ => true) Sys.initial (completes "n")).any
      (fun s => (s.completed? isSeven).isSome) = true := by
    decide +kernel
  obtain ⟨s, hs, h⟩ := Reach.exists_of_follow _ hrun
  obtain ⟨e, he⟩ := Option.isSome_iff_exists.mp h
  obtain ⟨hfind, htest⟩ := Option.filter_eq_some_iff.mp he
  rw [Bool.and_eq_true] at htest
  have hmem := List.mem_of_find?_eq_some hfind
  have hfirst : firstTerminal ((List.range sseMaxAttempts).map (dropsOnce (s.history "w")))
      = some e := by
    show List.find? _ ([] ++ (s.history "w" ++ (s.history "w" ++ []))) = some e
    rw [List.nil_append, List.find?_append, hfind, Option.some_or]
  have hdelivered : ∀ n < sseMaxAttempts, ∀ e ∈ (dropsOnce (s.history "w") n).delivered,
      e ∈ s.history "w" := by
    intro n _ e he
    cases n with
    | zero => cases he
    | succ n => exact he
  have hreports := (result_reports hs hdelivered).mpr fun e' he' hnull => by
    obtain rfl := Option.some.inj (hfirst.symm.trans he')
    rw [hnull.2] at htest
    cases htest.2
  rw [hfirst] at hreports
  exact ⟨s, e, hmem, htest.2, hreports⟩

/-- the row of the finished workflow in the stream -/
theorem stream_unspoofed_seven : ∃ (s : Sys Json) (e : EventRecord), e ∈ s.events
    ∧ (eventToSsePayload Runtime.plain e).get? "type" = some (.str "workflow_completed")
    ∧ ∃ result, e.payload = .obj [("result", result)]
      ∧ readEvents none [eventToSsePayload Runtime.plain e] = .returned result := by
  have hrun : (follow (Sys.step returnsSeven) (fun _ _ => true) Sys.initial (completes "n")).any
      (fun s => (s.completed? isSeven).isSome) = true := by
    decide +kernel
  obtain ⟨s, hs, h⟩ := Reach.exists_of_follow _ hrun
  obtain ⟨e, he⟩ := Option.isSome_iff_exists.mp h
  obtain ⟨hfind, htest⟩ := Option.filter_eq_some_iff.mp he
  rw [Bool.and_eq_true, beq_iff_eq] at htest
  have hmem := (Sys.mem_history.mp (List.mem_of_find?_eq_some hfind)).1
  obtain ⟨⟨htype, -⟩, hcompleted, -⟩ := stream_unspoofed hs hmem none []
  rw [htest.1] at htype
  exact ⟨s, e, hmem, htype, hcompleted htest.1⟩

/-- `_result` gives up although every connection has delivered the whole log of `w` -/
def Sys.losesResult (s : Sys Json) : Bool :=
  match result Runtime.plain (fun _ => ⟨s.history "w", none⟩) with
  | .error (.streamFailed none) => true
  | _ => false

theorem Sys.result_of_losesResult {s : Sys Json} (h : s.losesResult = true) :
    result Runtime.plain (fun _ => ⟨s.history "w", none⟩) = .error (.streamFailed none) := by
  revert h
  unfold Sys.losesResult
  cases result Runtime.plain (fun _ => ⟨s.history "w", none⟩) with
  | ok v =>
    intro h
    cases h
  | error e =>
    intro h
    cases e with
    | streamFailed lastError =>
      cases lastError with
      | none => rfl
      | some _ => cases h
    | workflowFailed _ => cases h

/-- a workflow that returns `None`: all three connections deliver its end, and `_result` raises that
the stream has failed -/
theorem null_result_lost : ∃ s : Sys Json, Reachable returnsSeven (fun _ _ => true) s
    ∧ (∃ e ∈ s.history "w", e.isNullResult)
    ∧ result Runtime.plain (fun _ => ⟨s.history "w", none⟩) = .error (.streamFailed none) := by
  have hrun : (follow (Sys.step returnsSeven) (fun _ _ => true) Sys.initial (completes "m")).any
      (fun s => (s.completed? isNull).isSome && s.losesResult) = true := by
    decide +kernel
  obtain ⟨s, hs, h⟩ := Reach.exists_of_follow _ hrun
  obtain ⟨h, hfailed⟩ := Bool.and_eq_true_iff.mp h
  obtain ⟨e, he⟩ := Option.isSome_iff_exists.mp h
  obtain ⟨hfind, htest⟩ := Option.filter_eq_some_iff.mp he
  rw [Bool.and_eq_true, beq_iff_eq] at htest
  refine ⟨s, hs, ⟨e, List.mem_of_find?_eq_some hfind, htest.1, ?_⟩, ?_⟩
  · cases hresult : e.payload.get? "result" with
    | none =>
      rw [hresult] at htest
      cases htest.2
    | some result =>
      rw [hresult] at htest
      cases result <;> first | rfl | cases htest.2
  · exact Sys.result_of_losesResult hfailed

end TemporalLight
