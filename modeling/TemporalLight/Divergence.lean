import TemporalLight.Engine

/-!
# What a changed step meets in the log

`e.records call` says that the event `e` is of the call, and a log diverges from a call at a step
when an event of that step is not of the call.  A call is `Detected` when it raises
`DivergenceError` before it has asked for anything.  `executeActivity` compares itself with the
first SCHEDULED event of its step, unless the step is completed or its arguments cannot be
converted; `sleep` and `spawnChild` compare themselves with nothing.

* `detected_iff`         which calls are detected at all
* `divergence_detected`  so this is when a divergent call is
-/

namespace TemporalLight

def EventType.isStep : EventType → Bool
  | .scheduled => true
  | .completed => true
  | .failed => true
  | .sleep => true
  | .childStarted => true
  | _ => false

section
variable {Val : Type} {rt : Runtime Val} {ctx : WorkflowContext} {call : Action Val}

def Action.isStep : Action Val → Bool
  | .activity _ _ => true
  | .sleep _ _ _ _ => true
  | .spawnChild _ _ => true
  | _ => false

def Json.describes (payload : Json) (key name : String) (arguments : Except PyExc Json) : Bool :=
  payload.getIs key name && arguments.toOption.any ((payload.get? "input").getD .null).pyEq

/-- the event is of the call; only SCHEDULED and CHILD_STARTED hold arguments, and arguments without
JSON are in no event -/
def EventRecord.records (e : EventRecord) (call : Action Val) : Bool :=
  match call, e.eventType with
  | .activity function arguments, .scheduled =>
    e.payload.describes "step_name" function.qualname (arguments >>= JsonSafe.dumps)
  | .activity function _, .completed => e.stepName == function.qualname
  | .activity function _, .failed => e.stepName == function.qualname
  | .sleep _ _ _ _, .sleep => true
  | .spawnChild workflowName kwargs, .childStarted =>
    e.payload.describes "workflow_name" workflowName kwargs
  | _, _ => false

/-- the log records the next step of the run as something other than the call -/
def WorkflowContext.Diverges (ctx : WorkflowContext) (call : Action Val) : Prop :=
  ∃ e ∈ ctx.eventHistory, e.stepIndex = ctx.stepCounter ∧ e.eventType.isStep = true
    ∧ e.records call = false

/-- the call raises `DivergenceError`; it has read, run and written nothing -/
def Detected (rt : Runtime Val) (ctx : WorkflowContext) (call : Action Val) : Prop :=
  ∃ message, (executeStep rt ctx call).run = .pure (.error (.divergenceError message))

/-- `!=` tells the arguments from the recorded ones, and the message can be made; or what they bring
along raises `DivergenceError` itself -/
def JsonSafe.Contradicts (text : Json → String) (recorded : Json) (arguments : JsonSafe) : Prop :=
  (∃ message, arguments.differs recorded = .error (.divergenceError message))
    ∨ arguments.differs recorded = .ok true ∧ ∀ error, arguments.repr text = .error error →
        ∃ message, error = .divergenceError message

/-- the SCHEDULED event names another activity or other arguments -/
def EventRecord.Contradicts (rt : Runtime Val) (scheduled : EventRecord) (name : String)
    (arguments : JsonSafe) : Prop :=
  (scheduled.payload.get? "step_name").isSome = true ∧
    (scheduled.payload.getIs "step_name" name = false
      ∨ arguments.Contradicts rt.repr ((scheduled.payload.get? "input").getD .null))

/-- the call compares itself with an event, and finds a difference -/
def WorkflowContext.Detects (rt : Runtime Val) (ctx : WorkflowContext) : Action Val → Prop
  | .activity function arguments => match ctx.findCompletedEvent ctx.stepCounter with
    -- the restoration of the result may raise anything
    | some completed => ∃ message, (getItem completed.payload "result" >>= function.fromJsonSafe)
        = .error (.divergenceError message)
    | none => match arguments with
      -- and so may `to_json_safe`
      | .error error => ∃ message, error = .divergenceError message
      | .ok serializable => ∃ scheduled, ctx.findScheduledEvent ctx.stepCounter = some scheduled
          ∧ scheduled.Contradicts rt function.qualname serializable
  | _ => False

theorem Json.getIs_of_get? {payload value : Json} {key : String} (text : String)
    (h : payload.get? key = some value) : payload.getIs key text = value.pyEq (.str text) := by
  rw [getIs, h]
  cases value <;> rfl

theorem JsonSafe.contradicts_json {text : Json → String} {recorded value : Json} :
    (JsonSafe.json value).Contradicts text recorded ↔ recorded.pyEq value = false := by
  rw [JsonSafe.Contradicts, JsonSafe.differs, JsonSafe.repr]
  constructor
  · rintro (⟨message, h⟩ | ⟨h, -⟩)
    · cases h
    · simpa using Except.ok.inj h
  · intro h
    rw [h]
    exact .inr ⟨rfl, fun error h => by cases h⟩

/-- the checks against the SCHEDULED event find the differences, and nothing else -/
theorem checkScheduled_error (rt : Runtime Val) {function : ActivityFunction Val}
    {arguments : JsonSafe} {scheduled : EventRecord} (i : Nat) :
    (∃ message, checkScheduled rt i function arguments scheduled
        = .error (.divergenceError message))
      ↔ scheduled.Contradicts rt function.qualname arguments := by
  rw [EventRecord.Contradicts]
  cases hname : scheduled.payload.get? "step_name" with
  | none =>
    rw [checkScheduled, getItem, hname]
    refine iff_of_false ?_ ?_
    · rintro ⟨_, h⟩
      cases h
    · rintro ⟨h, -⟩
      cases h
  | some name =>
    rw [checkScheduled, getItem_of_get? hname, Json.getIs_of_get? _ hname]
    dsimp only
    cases name.pyEq (.str function.qualname) with
    | false => exact iff_of_true ⟨_, rfl⟩ ⟨rfl, .inl rfl⟩
    | true =>
      rw [JsonSafe.Contradicts]
      cases arguments.differs ((scheduled.payload.get? "input").getD .null) with
      | error e => simp
      | ok differs =>
        cases differs with
        | false => simp
        | true => cases arguments.repr rt.repr <;> simp

theorem not_detected {c : Engine Val Val} {q : Call Val} {k : q.Reply → _}
    (h : c.run = .call q k) : ¬∃ message, c.run = .pure (.error (.divergenceError message)) :=
  fun ⟨_, h'⟩ => nomatch h.symm.trans h'

theorem engine_ok_bind {α β : Type} (a : α) (k : α → Engine Val β) :
    (ExceptT.mk (.pure (.ok a)) >>= k : Engine Val β) = k a := rfl

theorem detected_of_raised {c : Engine Val Val} {e : PyExc} (h : c.run = .pure (.error e)) :
    (∃ message, c.run = .pure (.error (.divergenceError message)))
      ↔ ∃ message, e = .divergenceError message := by
  rw [h]
  exact exists_congr fun message =>
    ⟨fun h => Except.error.inj (Resumption.pure.inj h), fun h => by rw [h]⟩

theorem detected_iff (hcall : call.isStep = true) :
    Detected rt ctx call ↔ ctx.Detects rt call := by
  cases call with
  | activity function arguments =>
    have hrun : (executeStep rt ctx (.activity function arguments)).run
        = (executeActivity rt ctx function arguments).run := rfl
    unfold Detected WorkflowContext.Detects
    rw [hrun, executeActivity]
    dsimp only [WorkflowContext.nextStepIndex]
    cases ctx.findCompletedEvent ctx.stepCounter with
    | some completed =>
      exact exists_congr fun message => ⟨Resumption.pure.inj, congrArg Resumption.pure⟩
    | none =>
      cases arguments with
      | error e => exact detected_of_raised rfl
      | ok serializable =>
        cases ctx.findScheduledEvent ctx.stepCounter with
        | none => exact iff_of_false (not_detected rfl) fun ⟨_, h, _⟩ => by cases h
        | some scheduled =>
          have hfound : (∃ e, some scheduled = some e
                ∧ e.Contradicts rt function.qualname serializable)
              ↔ scheduled.Contradicts rt function.qualname serializable := by simp
          dsimp only
          rw [hfound, ← checkScheduled_error rt ctx.stepCounter, engine_ok_bind]
          cases checkScheduled rt ctx.stepCounter function serializable scheduled with
          | error e =>
            exact (detected_of_raised rfl).trans
              (exists_congr fun message => ⟨congrArg Except.error, Except.error.inj⟩)
          | ok _ => exact iff_of_false (not_detected rfl) fun ⟨_, h⟩ => by cases h
  | sleep seconds minutes hours days =>
    have hrun : (executeStep rt ctx (.sleep seconds minutes hours days)).run
        = (sleep rt ctx seconds minutes hours days).run := rfl
    rw [Detected, hrun, sleep]
    dsimp only [WorkflowContext.nextStepIndex]
    refine iff_of_false ?_ id
    cases ctx.findEvent ctx.stepCounter .sleep with
    | some event => exact not_detected rfl
    | none => exact not_detected rfl
  | spawnChild workflowName kwargs =>
    have hrun : (executeStep rt ctx (.spawnChild workflowName kwargs)).run
        = (spawnChild rt ctx workflowName kwargs).run := rfl
    rw [Detected, hrun, spawnChild]
    dsimp only [WorkflowContext.nextStepIndex]
    refine iff_of_false ?_ id
    cases ctx.findChildStartedEvent ctx.stepCounter with
    | none => exact not_detected rfl
    | some event =>
      rintro ⟨message, h⟩
      have h : (getItem event.payload "child_id").map rt.ofJson
        = .error (.divergenceError message) := Resumption.pure.inj h
      rw [getItem] at h
      cases hid : event.payload.get? "child_id" with
      | some id =>
        rw [hid] at h
        cases h
      | none =>
        rw [hid] at h
        cases h
  | _ => cases hcall

/-- **A call that the log diverges from raises `DivergenceError`, without having done anything, if
and only if it is the call of an activity that is not completed, whose arguments can be converted,
and whose SCHEDULED event has another name or arguments that `!=` tells from them.** -/
theorem divergence_detected (hcall : call.isStep = true) :
    (ctx.Diverges call → Detected rt ctx call) ↔ (¬ctx.Diverges call ∨ ctx.Detects rt call) := by
  rw [detected_iff hcall, imp_iff_not_or]

end

/-! ## two changed steps -/

def charge : ActivityFunction Json := ⟨"charge", 3, 1, .ok⟩
def refund : ActivityFunction Json := ⟨"refund", 3, 1, .ok⟩

/-- the first step of a run whose log is `eventHistory` -/
def firstStep (eventHistory : List EventRecord) : WorkflowContext := ⟨"w", eventHistory, none, 0⟩

/-- `charge` is scheduled as step 0 -/
def scheduledCharge : EventRecord where
  workflowId := "w"
  stepIndex := 0
  stepName := "charge"
  eventType := .scheduled
  payload := .obj [("step_name", .str "charge"), ("input", .obj [])]
  eventId := 2
  timestamp := 0

def completedCharge : EventRecord :=
  { scheduledCharge with
    eventType := .completed, payload := .obj [("result", .int 5)], eventId := 3 }

theorem divergence_detected_once :
    Detected Runtime.plain (firstStep [scheduledCharge])
      (.activity refund (.ok (.json (.obj [])))) :=
  (divergence_detected rfl).mpr (.inr ⟨scheduledCharge, rfl, rfl, .inl rfl⟩)
    ⟨scheduledCharge, List.mem_cons_self, rfl, rfl, rfl⟩

/-- a completed `charge` answers a call of `refund` -/
theorem refund_returns_charge :
    (firstStep [scheduledCharge, completedCharge]).Diverges
        (.activity refund (.ok (.json (.obj []))) : Action Json)
      ∧ (executeStep Runtime.plain (firstStep [scheduledCharge, completedCharge])
          (.activity refund (.ok (.json (.obj []))))).run = .pure (.ok (.int 5)) :=
  ⟨⟨completedCharge, List.mem_cons_of_mem _ List.mem_cons_self, rfl, rfl, rfl⟩, rfl⟩

end TemporalLight
