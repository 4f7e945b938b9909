import TemporalLight.Payloads
import TemporalLight.Library.Dict

/-!
# The SSE object of an event (api/sse.py)

A JSON object is written to the stream with `json.dumps` and read back with `json.loads`, so it
is taken as it is here.
-/

namespace TemporalLight

/-- the value of `EventType`, as the API and the database write it -/
def EventType.value : EventType → String
  | .started => "started"
  | .scheduled => "scheduled"
  | .completed => "completed"
  | .failed => "failed"
  | .sleep => "sleep"
  | .signal => "signal"
  | .childStarted => "child_started"
  | .workflowCompleted => "workflow_completed"
  | .workflowFailed => "workflow_failed"

theorem EventType.value_inj {ty ty' : EventType} (h : ty.value = ty'.value) : ty = ty' := by
  revert h
  cases ty <;> cases ty' <;> decide

section
variable {Val : Type} (rt : Runtime Val)

/-- `_event_to_sse_payload` -/
def eventToSsePayload (event : EventRecord) : Json :=
  let base := [("type", .str event.eventType.value), ("step_index", .int event.stepIndex),
    ("step_name", .str event.stepName), ("timestamp", .str (rt.isoformat event.timestamp))]
  match event.payload with
  | .obj fields => .obj (Dict.update base fields)
  -- `None`
  | _ => .obj base

variable {rt} {d : Deployment Val} {s : Sys Val} {ok : Sys Val → Label Val → Prop}

/-- **The SSE object has the fields of the row**, although the payload is merged over them. -/
theorem eventToSsePayload_get? {e : EventRecord} (he : e.toEntry.KeepsColumns) :
    (eventToSsePayload rt e).get? "type" = some (.str e.eventType.value)
    ∧ (eventToSsePayload rt e).get? "step_index" = some (.int e.stepIndex)
    ∧ (eventToSsePayload rt e).get? "step_name" = some (.str e.stepName)
    ∧ (eventToSsePayload rt e).get? "timestamp" = some (.str (rt.isoformat e.timestamp)) := by
  obtain ⟨fields, hpayload, hfields⟩ := he
  rw [eventToSsePayload, hpayload]
  have hother : ∀ key ∈ ["type", "step_index", "timestamp"], ∀ f ∈ fields, f.1 ≠ key :=
    fun key hkey f hf heq => (hfields f hf).1 (heq ▸ hkey)
  refine ⟨Dict.lookup_update fun f hf hk => ?_, Dict.lookup_update fun f hf hk => ?_,
    Dict.lookup_update fun f hf hk => ?_, Dict.lookup_update fun f hf hk => ?_⟩
  · exact absurd hk (hother _ (by simp) f hf)
  · exact absurd hk (hother _ (by simp) f hf)
  · rw [(hfields f hf).2 hk]
    rfl
  · exact absurd hk (hother _ (by simp) f hf)

end

end TemporalLight
