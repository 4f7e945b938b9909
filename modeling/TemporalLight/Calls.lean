import TemporalLight.Tables
import Mathlib.Tactic.Tauto

/-!
# What the code of the engine asks, and what its awaits deliver

The rules of `Library.Resumption` for the code of one run of `w`, with the histories read so far as
the shared state: this is all that the code itself guarantees, whatever the database and the other
threads do.

* `Call.OfRun w`       a run of `w` writes to `w`, to its parent when it ends, and to its children
                       when it creates them; nothing else;
* `Action.Delivers`    a wait delivers the first answer of a history that has been read, and
                       `spawn_child` the id of the child.
-/

namespace TemporalLight
open Resumption

/-- the histories read so far, with their workflows -/
abbrev Loaded := List (String × List EventRecord)

section
variable {Val α β : Type}

/-! ## the code as a resumption -/

@[simp] theorem run_pure (a : α) : (pure a : Engine Val α).run = .pure (.ok a) := rfl
@[simp] theorem run_throw (e : PyExc) : (throw e : Engine Val α).run = .pure (.error e) := rfl
@[simp] theorem run_mk (c : Resumption (Call Val) Call.Reply (Except PyExc α)) :
    (ExceptT.mk c : Engine Val α).run = c := rfl
@[simp] theorem run_loadEventHistory (w : String) :
    (loadEventHistory w : Engine Val _).run = .call (.loadEventHistory w) fun r => .pure (.ok r) :=
  rfl
@[simp] theorem run_getWorkflow (w : String) :
    (getWorkflow w : Engine Val _).run = .call (.getWorkflow w) fun r => .pure (.ok r) := rfl
@[simp] theorem run_now :
    (now : Engine Val _).run = .call .now fun r => .pure (.ok r) := rfl
@[simp] theorem run_runActivityBody (w : String) (i : Nat) (f : ActivityFunction Val)
    (args : JsonSafe) :
    (runActivityBody w i f args : Engine Val _).run
      = .call (.runActivityBody w i f args) fun r => .pure (.ok r) := rfl
@[simp] theorem run_pgNotify (w : String) :
    (pgNotify w : Engine Val _).run = .call (.pgNotify w) fun r => .pure (.ok r) := rfl
@[simp] theorem run_transaction (txn : Txn) :
    (transaction txn : Engine Val _).run = .call (.transaction txn) .pure := rfl

/-! ## calls of a run -/

def parentOf (history : List EventRecord) : Option ParentInfo :=
  (history.find? fun e => e.eventType == .started).bind fun e => parentInfoOf e.payload

def ParentOk (w : String) (loaded : Loaded) (parentInfo : Option ParentInfo) : Prop :=
  ∃ h, (w, h) ∈ loaded ∧ parentInfo = parentOf h

/-- an event that a run writes by itself: an event of a step, or a waiting marker -/
def IsRunEvent (stepIndex : Int) (eventType : EventType) (payload : Except PyExc Json) : Prop :=
  ((∃ i : Nat, stepIndex = i) ∧ (eventType = .scheduled ∨ eventType = .completed
      ∨ eventType = .failed ∨ eventType = .sleep))
    ∨ (stepIndex = -1 ∧ eventType = .signal ∧ ∃ wait : Wait, payload = .ok wait.markerPayload)

/-- the transactions of a run of `w` whose next await is the wait `wait?`, or none -/
def Txn.OfRun (w : String) (wait? : Option Wait) (loaded : Loaded) : Txn → Prop
  | .createChildWorkflow parentId childId _ _ i => parentId = w ∧ childId = childWorkflowId w i
  | .markWorkflowWaiting w' wait => w' = w ∧ wait? = some wait
  | .updateWorkflowRunAt w' _ => w' = w
  | .completeWorkflow w' _ parentInfo => w' = w ∧ ParentOk w loaded parentInfo
  | .failWorkflow w' _ parentInfo => w' = w ∧ ParentOk w loaded parentInfo
  | .insertEvent w' stepIndex _ eventType payload =>
    w' = w ∧ IsRunEvent stepIndex eventType payload
  | _ => False

def Call.OfRun (w : String) (wait? : Option Wait) (loaded : Loaded) : Call Val → Prop
  | .loadEventHistory w' => w' = w
  | .getWorkflow _ => False
  | .now => True
  | .runActivityBody w' _ _ _ => w' = w
  | .pgNotify _ => True
  | .transaction txn => txn.OfRun w wait? loaded

def Stmt.MayRaise (error : PyExc) : Stmt → Prop
  | .insertWorkflow _ _ => error = uniqueViolation
  | .insertEvent _ _ _ _ (.error e) => error = e
  | .insertEvent _ _ _ _ (.ok _) => ∃ message, error = dataError message
  | .foreignKey _ => error = foreignKeyViolation
  | _ => False

/-- the exceptions that a transaction can raise -/
def Txn.MayRaise (txn : Txn) (error : PyExc) : Prop :=
  ∃ stmt ∈ txn.statements, stmt.MayRaise error

/-- what the reply to a call tells -/
def Call.Answered (loaded : Loaded) : (q : Call Val) → q.Reply → Prop
  | .loadEventHistory w, history => (w, history) ∈ loaded
  | .transaction txn, result => ∀ error, result = .error error → txn.MayRaise error
  | _, _ => True

/-- the rules for code that may ask the calls `allowed` -/
def codeRules (allowed : Loaded → Call Val → Prop) :
    Rules (Call Val) Call.Reply Loaded where
  rely loaded loaded' := loaded ⊆ loaded'
  ask q loaded := allowed loaded q
  answer q reply loaded loaded' := loaded ⊆ loaded' ∧ q.Answered loaded' reply
  keep _ _ := True
  rely_refl loaded := List.Subset.refl loaded
  rely_trans h h' := List.Subset.trans h h'

theorem ParentOk.mono {w : String} {L L' : Loaded} (hL : L ⊆ L') {parentInfo : Option ParentInfo}
    (h : ParentOk w L parentInfo) : ParentOk w L' parentInfo := by
  obtain ⟨history, hmem, hparent⟩ := h
  exact ⟨history, hL hmem, hparent⟩

theorem Txn.OfRun.mono {w : String} {wait? : Option Wait} {L L' : Loaded} (hL : L ⊆ L')
    {txn : Txn} (h : txn.OfRun w wait? L) : txn.OfRun w wait? L' := by
  cases txn with
  | completeWorkflow w' result parentInfo => exact ⟨h.1, h.2.mono hL⟩
  | failWorkflow w' message parentInfo => exact ⟨h.1, h.2.mono hL⟩
  | _ => exact h

theorem Call.OfRun.mono {w : String} {wait? : Option Wait} {L L' : Loaded} (hL : L ⊆ L')
    {q : Call Val} (h : q.OfRun w wait? L) : q.OfRun w wait? L' := by
  cases q with
  | transaction txn => exact Txn.OfRun.mono hL h
  | _ => exact h

/-- a call of the code: everything known so far is kept, and the reply may be anything that
answers the call -/
theorem wp_code_call {allowed : Loaded → Call Val → Prop} {Φ : α → Loaded → Prop}
    {q : Call Val} {k : q.Reply → Resumption (Call Val) Call.Reply α} {L : Loaded}
    (hask : ∀ L', L ⊆ L' → allowed L' q)
    (h : ∀ reply L', L ⊆ L' → q.Answered L' reply → wp (codeRules allowed) (k reply) Φ L') :
    wp (codeRules allowed) (.call q k) Φ L := by
  intro L' hL
  refine ⟨hask L' hL, fun reply L'' hans => ⟨trivial, ?_⟩⟩
  exact h reply L'' (List.Subset.trans hL hans.1) hans.2

/-! ## what the awaits deliver -/

/-- the database refuses the marker of a wait: its workflow has no row, or JSONB does not take it -/
def PyExc.RefusesMarker (error : PyExc) : Prop :=
  error = foreignKeyViolation ∨ ∃ message, error = dataError message

/-- what the await of an action at step `i` of `w` may deliver -/
def Action.Delivers (rt : Runtime Val) (w : String) (i : Nat) (loaded : Loaded)
    (action : Action Val) (outcome : Outcome Val) : Prop :=
  match action.wait?, action with
  | some wait, _ =>
    (∃ h e, (w, h) ∈ loaded ∧ h.find? wait.isAnswer = some e ∧ outcome = wait.outcome rt e)
      ∨ outcome = .error (.workflowSuspended wait.suspensionText)
      ∨ ∃ error, error.RefusesMarker ∧ outcome = .error error
  | none, .spawnChild _ _ => ∀ value, outcome = .ok value →
    value = rt.ofJson (.str (childWorkflowId w i))
      ∨ ∃ h e, (w, h) ∈ loaded ∧ e ∈ h ∧ e.stepIndex = i ∧ e.eventType = .childStarted
        ∧ (getItem e.payload "child_id").map rt.ofJson = .ok value
  | none, _ => True

theorem Action.Delivers.mono {rt : Runtime Val} {w : String} {i : Nat} {L L' : Loaded}
    (hL : L ⊆ L') {action : Action Val} {outcome : Outcome Val}
    (h : action.Delivers rt w i L outcome) : action.Delivers rt w i L' outcome := by
  cases action with
  | spawnChild name kwargs =>
    intro value hv
    rcases h value hv with h | ⟨hist, e, hmem, he⟩
    · exact .inl h
    · exact .inr ⟨hist, e, hL hmem, he⟩
  | waitForChild c =>
    rcases h with ⟨hist, e, hmem, he⟩ | h
    · exact .inl ⟨hist, e, hL hmem, he⟩
    · exact .inr h
  | waitForSignal T =>
    rcases h with ⟨hist, e, hmem, he⟩ | h
    · exact .inl ⟨hist, e, hL hmem, he⟩
    · exact .inr h
  | _ => trivial

theorem Txn.refusesMarker {w n : String} {i : Int} {ty : EventType} {payload : Json}
    {error : PyExc} (h : (Txn.insertEvent w i n ty (.ok payload)).MayRaise error) :
    error.RefusesMarker := by
  obtain ⟨stmt, hmem, hraise⟩ := h
  simp only [Txn.statements, insertInto, List.mem_cons, List.not_mem_nil, or_false] at hmem
  rcases hmem with rfl | rfl
  · exact .inr hraise
  · exact .inl hraise

theorem Txn.not_mayRaise_mark {w : String} {wait : Wait} {error : PyExc} :
    ¬(Txn.markWorkflowWaiting w wait).MayRaise error := by
  rintro ⟨stmt, hmem, hraise⟩
  simp only [Txn.statements, List.mem_cons, List.not_mem_nil, or_false] at hmem
  rcases hmem with rfl | rfl | rfl <;> exact hraise

variable {rt : Runtime Val} {w : String} {wait? : Option Wait} {ctx : WorkflowContext} {L : Loaded}

theorem wp_code_grow {allowed : Loaded → Call Val → Prop} {Φ : α → Loaded → Prop}
    {c : Resumption (Call Val) Call.Reply α} (h : wp (codeRules allowed) c Φ L) :
    wp (codeRules allowed) c (fun a L' => Φ a L' ∧ L ⊆ L') L := by
  suffices ∀ L₀, L₀ ⊆ L → wp (codeRules allowed) c (fun a L' => Φ a L' ∧ L₀ ⊆ L') L from
    this L (List.Subset.refl L)
  induction c generalizing L with
  | pure a => exact fun L₀ h₀ L' hL => ⟨h L' hL, List.Subset.trans h₀ hL⟩
  | call q k ih =>
    intro L₀ h₀ L' hL
    obtain ⟨hask, hans⟩ := h L' hL
    refine ⟨hask, fun reply L'' hr => ⟨trivial, ?_⟩⟩
    exact ih reply (hans reply L'' hr).2 L₀ (List.Subset.trans h₀ (List.Subset.trans hL hr.1))

def AsksOnly (allowed : Loaded → Call Val → Prop) (c : Engine Val α) (L : Loaded) : Prop :=
  wp (codeRules allowed) c.run (fun _ _ => True) L

theorem AsksOnly.pure {allowed : Loaded → Call Val → Prop} (r : Except PyExc α) :
    AsksOnly allowed (ExceptT.mk (.pure r)) L := fun _ _ => trivial

theorem AsksOnly.bind {allowed : Loaded → Call Val → Prop} {c : Engine Val α}
    {f : α → Engine Val β} (hc : AsksOnly allowed c L)
    (hf : ∀ a L', L ⊆ L' → AsksOnly allowed (f a) L') : AsksOnly allowed (c >>= f) L := by
  refine wp_run_bind (wp_mono ?_ (wp_code_grow hc))
  intro r L' hL
  cases r with
  | ok a => exact hf a L' hL.2
  | error e => exact fun _ _ => trivial

theorem AsksOnly.call {allowed : Loaded → Call Val → Prop} {q : Call Val}
    (h : ∀ L', L ⊆ L' → allowed L' q) (k : q.Reply → Except PyExc α) :
    AsksOnly allowed (ExceptT.mk (.call q fun r => .pure (k r))) L :=
  wp_code_call h fun _ _ _ _ _ _ => trivial

theorem AsksOnly.transaction {txn : Txn} (h : txn.OfRun w wait? L) :
    AsksOnly (Call.OfRun w wait?) (transaction txn : Engine Val Bool) L :=
  AsksOnly.call (fun _ hL => Txn.OfRun.mono hL h) id

theorem AsksOnly.writeEvent {n : String} {i : Int} {ty : EventType}
    {payload : Except PyExc Json} (h : IsRunEvent i ty payload) :
    AsksOnly (Call.OfRun w wait?) (writeEvent w i n ty payload : Engine Val Unit) L :=
  (AsksOnly.transaction (by exact ⟨rfl, h⟩)).bind fun _ _ _ => AsksOnly.call (fun _ _ => trivial) .ok

/-! ## the primitives -/

theorem asksOnly_now : AsksOnly (Call.OfRun w wait?) (now : Engine Val Int) L :=
  AsksOnly.call (fun _ _ => trivial) .ok

theorem isRunEvent_step (i : Nat) {ty : EventType} (payload : Except PyExc Json)
    (h : ty = .scheduled ∨ ty = .completed ∨ ty = .failed ∨ ty = .sleep) :
    IsRunEvent i ty payload := .inl ⟨⟨i, rfl⟩, h⟩

variable (hw : ctx.workflowId = w) (hparent : ParentOk w L ctx.parentInfo)
include hw

include hparent in
theorem asksOnly_handleActivityFailure (i : Nat) (f : ActivityFunction Val) (n : Nat)
    (error : PyExc) (duration : Int) :
    AsksOnly (Call.OfRun w wait?) (handleActivityFailure rt ctx i f n error duration) L := by
  subst hw
  unfold handleActivityFailure
  refine (AsksOnly.pure _).bind fun errorMessage L₁ h₁ => ?_
  refine (AsksOnly.writeEvent (isRunEvent_step i _ (by simp))).bind fun _ L₂ h₂ => ?_
  show AsksOnly _ (if _ then _ else _) L₂
  split
  · refine asksOnly_now.bind fun _ L₃ _ => ?_
    refine (AsksOnly.pure _).bind fun retryAt L₄ _ => ?_
    exact (AsksOnly.transaction (by exact rfl)).bind fun _ _ _ => AsksOnly.pure _
  · have hparent' := hparent.mono (List.Subset.trans h₁ h₂)
    exact (AsksOnly.transaction (by exact ⟨rfl, hparent'⟩)).bind fun _ _ _ => AsksOnly.pure _

include hparent in
theorem asksOnly_runAttempt (i : Nat) (f : ActivityFunction Val) (args : JsonSafe) :
    AsksOnly (Call.OfRun w wait?) (runAttempt rt ctx i f args) L := by
  unfold runAttempt
  refine asksOnly_now.bind fun startedAt L₁ h₁ => ?_
  have hbody : AsksOnly (Call.OfRun w wait?) (runActivityBody ctx.workflowId i f args) L₁ :=
    AsksOnly.call (fun _ _ => hw) .ok
  refine hbody.bind fun result L₂ h₂ => ?_
  cases result with
  | error executionError =>
    show AsksOnly _ (if _ then _ else _) L₂
    split
    · refine asksOnly_now.bind fun _ L₃ h₃ => ?_
      have hparent' := hparent.mono (List.Subset.trans h₁ (List.Subset.trans h₂ h₃))
      exact (asksOnly_handleActivityFailure hw hparent' i f _ _ _).bind fun _ _ _ =>
        AsksOnly.pure _
    · exact AsksOnly.pure _
  | ok result =>
    subst hw
    refine asksOnly_now.bind fun _ L₃ h₃ => ?_
    exact (AsksOnly.writeEvent (isRunEvent_step i _ (by simp))).bind fun _ _ _ =>
      AsksOnly.pure _

include hparent in
theorem asksOnly_executeActivity (f : ActivityFunction Val) (args : Except PyExc JsonSafe) :
    AsksOnly (Call.OfRun w wait?) (executeActivity rt ctx f args) L := by
  unfold executeActivity
  dsimp only
  split
  · exact AsksOnly.pure _
  · refine (AsksOnly.pure _).bind fun input L₁ h₁ => ?_
    split
    · refine (AsksOnly.pure _).bind fun _ L₂ h₂ => ?_
      exact asksOnly_runAttempt hw (hparent.mono (List.Subset.trans h₁ h₂)) _ f input
    · have hwrite : AsksOnly (Call.OfRun w wait?) (writeEvent ctx.workflowId
          ctx.nextStepIndex.1 f.qualname .scheduled (input.dumps.map fun input =>
            .obj [("step_name", .str f.qualname), ("input", input)]) : Engine Val Unit) L₁ := by
        subst hw
        exact AsksOnly.writeEvent (isRunEvent_step _ _ (by simp))
      exact hwrite.bind fun _ L₂ h₂ =>
        asksOnly_runAttempt hw (hparent.mono (List.Subset.trans h₁ h₂)) _ f input

theorem asksOnly_sleep (seconds minutes hours days : ℚ) :
    AsksOnly (Call.OfRun w wait?) (sleep rt ctx seconds minutes hours days) L := by
  subst hw
  unfold sleep
  dsimp only
  split
  · refine asksOnly_now.bind fun _ L₁ _ => ?_
    split
    · exact AsksOnly.pure _
    · exact (AsksOnly.transaction (by exact rfl)).bind fun _ _ _ => AsksOnly.pure _
  · refine asksOnly_now.bind fun _ L₁ _ => ?_
    refine (AsksOnly.pure _).bind fun wakeupAt L₂ _ => ?_
    refine (AsksOnly.writeEvent (isRunEvent_step _ _ (by simp))).bind fun _ L₃ _ => ?_
    exact (AsksOnly.transaction (by exact rfl)).bind fun _ _ _ => AsksOnly.pure _

omit hw in
theorem delivers_suspended {wait : Wait} {i : Nat} {action : Action Val}
    (haction : action.wait? = some wait) :
    action.Delivers rt w i L (.error (.workflowSuspended wait.suspensionText)) := by
  unfold Action.Delivers
  rw [haction]
  exact .inr (.inl rfl)

omit hw in
theorem delivers_refused {wait : Wait} {i : Nat} {action : Action Val}
    (haction : action.wait? = some wait) {error : PyExc} (h : error.RefusesMarker) :
    action.Delivers rt w i L (.error error) := by
  unfold Action.Delivers
  rw [haction]
  exact .inr (.inr ⟨error, h, rfl⟩)

theorem wp_spawnChild (name : String) (kwargs : Except PyExc Json)
    (hhist : (w, ctx.eventHistory) ∈ L) :
    wp (codeRules (Call.OfRun w wait?)) (spawnChild rt ctx name kwargs).run
      (fun o L' => (Action.spawnChild name kwargs).Delivers rt w ctx.stepCounter L' o) L := by
  unfold spawnChild
  dsimp only
  split
  · rename_i e he
    intro L' hL value hv
    obtain ⟨hmem, htest⟩ : e ∈ ctx.eventHistory ∧ _ :=
      ⟨List.mem_of_find?_eq_some he, List.find?_some he⟩
    rw [Bool.and_eq_true, beq_iff_eq, beq_iff_eq] at htest
    exact .inr ⟨ctx.eventHistory, e, hL hhist, hmem, htest.1, htest.2, hv⟩
  · refine wp_run_bind (wp_code_call (fun L' _ => ⟨hw, by rw [← hw]⟩) fun reply L' hL _ => ?_)
    intro L'' hL'
    cases reply with
    | error error => exact fun _ _ => nofun
    | ok b => exact fun _ _ value hv => .inl (by rw [← hw]; exact (Except.ok.inj hv).symm)

omit hw in
theorem Wait.mark_eq (wait : Wait) (w' : String) : wait.mark w' = .markWorkflowWaiting w' wait := by
  cases wait <;> rfl

omit hw in
theorem delivers_answer {wait : Wait} {i : Nat} {action : Action Val}
    (haction : action.wait? = some wait) {h : List EventRecord} {e : EventRecord}
    (hmem : (w, h) ∈ L) (he : h.find? wait.isAnswer = some e) :
    action.Delivers rt w i L (wait.outcome rt e) := by
  cases action <;> simp only [Action.wait?, Option.some.injEq, reduceCtorEq] at haction
  all_goals
    subst haction
    exact .inl ⟨h, e, hmem, he, rfl⟩

theorem wp_suspendUnlessAnswered {wait : Wait} {i : Nat} {action : Action Val}
    (haction : action.wait? = some wait) :
    wp (codeRules (Call.OfRun w (some wait))) (suspendUnlessAnswered rt ctx wait).run
      (fun o L' => action.Delivers rt w i L' o) L := by
  unfold suspendUnlessAnswered
  rw [Wait.mark_eq]
  refine wp_run_bind (wp_code_call (fun L' _ => ⟨hw, rfl⟩) fun reply L₁ h₁ hans => ?_)
  intro L₂ h₂
  cases reply with
  | error error => exact absurd (hans error rfl) Txn.not_mayRaise_mark
  | ok markedWaiting =>
    cases markedWaiting with
    | true => exact fun L₃ _ => delivers_suspended haction
    | false =>
      refine wp_run_bind (wp_code_call (fun L' _ => hw) fun history L₃ h₃ hans => ?_)
      intro L₄ h₄
      dsimp only
      split
      · rename_i e he
        have hmem : (w, history) ∈ L₄ := h₄ (hw ▸ hans)
        exact fun L₅ h₅ => delivers_answer haction (h₅ hmem) he
      · exact fun L₅ _ => delivers_suspended haction

theorem wp_waitFor {wait : Wait} {i : Nat} {action : Action Val}
    (haction : action.wait? = some wait) (hhist : (w, ctx.eventHistory) ∈ L) :
    wp (codeRules (Call.OfRun w (some wait))) (waitFor rt ctx wait).run
      (fun o L' => action.Delivers rt w i L' o) L := by
  unfold waitFor
  dsimp only
  split
  · rename_i e he
    exact fun L' hL => delivers_answer haction (hL hhist) he
  · have hsuspend : ∀ L', L ⊆ L' → wp (codeRules (Call.OfRun w (some wait)))
        (suspendUnlessAnswered rt ctx wait).run (fun o L' => action.Delivers rt w i L' o) L' :=
      fun L' _ => wp_suspendUnlessAnswered hw haction
    split
    · have hmarker : IsRunEvent (-1) .signal (.ok wait.markerPayload) :=
        .inr ⟨rfl, rfl, wait, rfl⟩
      refine wp_run_bind (wp_run_bind (wp_code_call (fun L' _ => ⟨hw, hmarker⟩)
        fun reply L₁ h₁ hans => ?_))
      intro L₂ h₂
      cases reply with
      | error error =>
        exact fun L₃ _ L₄ _ => delivers_refused haction (Txn.refusesMarker (hans error rfl))
      | ok b =>
        refine wp_code_call (fun _ _ => trivial) fun reply L₃ h₃ _ => ?_
        intro L₄ h₄
        exact hsuspend L₄ (List.Subset.trans h₁ (List.Subset.trans h₂ (List.Subset.trans h₃ h₄)))
    · exact hsuspend L (List.Subset.refl L)

include hparent in
/-- **The await of an action asks only calls of its run, and delivers what it should.** -/
theorem wp_executeStep (hhist : (w, ctx.eventHistory) ∈ L) (action : Action Val)
    (hend : action.isEnd = false) :
    wp (codeRules (Call.OfRun w action.wait?)) (executeStep rt ctx action).run
      (fun o L' => action.Delivers rt w ctx.stepCounter L' o) L := by
  cases action with
  | activity f args => exact asksOnly_executeActivity hw hparent f args
  | sleep seconds minutes hours days => exact asksOnly_sleep hw seconds minutes hours days
  | spawnChild name kwargs => exact wp_spawnChild hw name kwargs hhist
  | waitForChild c => exact wp_waitFor hw rfl hhist
  | waitForSignal T => exact wp_waitFor hw rfl hhist
  | ret result => simp [Action.isEnd] at hend
  | raise error => simp [Action.isEnd] at hend

include hparent in
theorem asksOnly_finishRun (action : Action Val) :
    AsksOnly (Call.OfRun w wait?) (finishRun rt ctx action) L := by
  subst hw
  unfold finishRun
  split
  · exact AsksOnly.pure _
  · split
    · refine (AsksOnly.pure _).bind fun errorMessage L₁ h₁ => ?_
      have hparent' := hparent.mono h₁
      exact (AsksOnly.transaction (by exact ⟨rfl, hparent'⟩)).bind fun _ _ _ => AsksOnly.pure _
    · exact AsksOnly.pure _
  · exact (AsksOnly.transaction (by exact ⟨rfl, hparent⟩)).bind fun _ _ _ => AsksOnly.pure _
  · exact AsksOnly.pure _

end

section
variable {Val : Type} {rt : Runtime Val} {w : String} {L : Loaded}

/-! ## runs -/

/-- the program and the context of a run come from a history that it has read -/
structure Run.Started (registry : String → Option (Json → Program Val)) (loaded : Loaded)
    (record : WorkflowRecord) (program : Program Val) (ctx : WorkflowContext) : Prop where
  workflowId : ctx.workflowId = record.workflowId
  history : (record.workflowId, ctx.eventHistory) ∈ loaded
  parent : ParentOk record.workflowId loaded ctx.parentInfo
  program : ∃ e f, ctx.eventHistory.find? (fun e => e.eventType == .started) = some e
    ∧ registry record.name = some f ∧ program = f ((e.payload.get? "input").getD (.obj []))

theorem Run.Started.mono {registry : String → Option (Json → Program Val)} {L' : Loaded}
    {record : WorkflowRecord} {program : Program Val} {ctx : WorkflowContext} (hL : L ⊆ L')
    (h : Run.Started registry L record program ctx) :
    Run.Started registry L' record program ctx where
  workflowId := h.workflowId
  history := hL h.history
  parent := h.parent.mono hL
  program := h.program

theorem wp_startRun (registry : String → Option (Json → Program Val)) (record : WorkflowRecord) :
    wp (codeRules (Call.OfRun record.workflowId none)) (startRun registry record).run
      (fun r L' => ∀ program ctx, r = .ok (some (program, ctx)) →
        Run.Started registry L' record program ctx ∧ ctx.stepCounter = 0) L := by
  unfold startRun
  refine wp_run_bind (wp_code_call (fun _ _ => rfl) fun history L₁ _ hmem => ?_)
  intro L₂ h₂
  replace hmem : (record.workflowId, history) ∈ L₂ := h₂ hmem
  dsimp only
  split
  · rename_i hnone
    have hparent : ∀ L', L₂ ⊆ L' → ParentOk record.workflowId L' none :=
      fun L' hL => ⟨history, hL hmem, by simp [parentOf, hnone]⟩
    refine wp_run_bind (wp_code_call (fun L' hL => ⟨rfl, hparent L' hL⟩) fun reply L₃ _ _ => ?_)
    intro L₄ _
    cases reply <;> exact fun _ _ => nofun
  · rename_i e he
    have hparent : ∀ L', L₂ ⊆ L' → ParentOk record.workflowId L' (parentInfoOf e.payload) :=
      fun L' hL => ⟨history, hL hmem, by simp [parentOf, he]⟩
    split
    · refine wp_run_bind (wp_code_call (fun L' hL => ⟨rfl, hparent L' hL⟩) fun reply L₃ _ _ => ?_)
      intro L₄ _
      cases reply <;> exact fun _ _ => nofun
    · rename_i f hf
      intro L₃ h₃ program ctx hr
      obtain ⟨rfl, rfl⟩ := Prod.mk.inj (Option.some.inj (Except.ok.inj hr))
      exact ⟨⟨rfl, h₃ hmem, hparent L₃ h₃, e, f, he, hf, rfl⟩, rfl⟩

end

end TemporalLight
