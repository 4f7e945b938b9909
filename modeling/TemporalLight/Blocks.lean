import TemporalLight.Engine
import TemporalLight.Library.Replay

/-!
# What the steps of a workflow leave in its log

`Replayable` is a workflow whose function has no handler around its awaits and whose activities
return values that survive their way through JSON.  Its `grammar` says what each step leaves:

* an activity  SCHEDULED, then FAILED events that count the attempts, then COMPLETED
* a sleep      SLEEP
* a spawn      CHILD_STARTED
* a wait       nothing among the steps; its value is the answer that has been read

The grammar depends on the answers `R` read so far.
-/

namespace TemporalLight

/-! ## step events -/

/-- the event belongs to a step of the function, and not to the workflow as a whole -/
def Entry.isStep (e : Entry) : Bool := decide (0 ≤ e.stepIndex)

def Entry.isAt (i : Nat) (ty : EventType) (e : Entry) : Bool :=
  e.stepIndex == (i : Int) && e.eventType == ty

def stepEntries (history : List EventRecord) : List Entry :=
  (history.map EventRecord.toEntry).filter Entry.isStep

theorem Entry.isAt_iff {i : Nat} {ty : EventType} {e : Entry} :
    e.isAt i ty = true ↔ e.stepIndex = i ∧ e.eventType = ty := by
  simp [Entry.isAt]

theorem Entry.isStep_of_isAt {i : Nat} {ty : EventType} {e : Entry} (h : e.isAt i ty = true) :
    e.isStep = true := by
  rw [Entry.isAt_iff] at h
  simp [Entry.isStep, h.1]

theorem Entry.isAt_and_isStep (i : Nat) (ty : EventType) (e : Entry) :
    (e.isStep && e.isAt i ty) = e.isAt i ty := by
  cases h : e.isAt i ty with
  | true => rw [Entry.isStep_of_isAt h]; rfl
  | false => rw [Bool.and_false]

theorem find?_stepEntries (history : List EventRecord) (i : Nat) (ty : EventType) :
    (stepEntries history).find? (Entry.isAt i ty)
      = (history.find? fun e => e.toEntry.isAt i ty).map EventRecord.toEntry := by
  unfold stepEntries
  rw [List.find?_filter, List.find?_map]
  congr 2
  funext e
  simpa using Entry.isAt_and_isStep i ty e.toEntry

theorem countP_stepEntries (history : List EventRecord) (i : Nat) (ty : EventType) :
    (stepEntries history).countP (Entry.isAt i ty)
      = history.countP fun e => e.toEntry.isAt i ty := by
  unfold stepEntries
  rw [List.countP_filter, List.countP_map]
  refine List.countP_congr fun e _ => ?_
  rw [Function.comp, Bool.and_comm, Entry.isAt_and_isStep]

/-! ## the events of an activity, a sleep, a spawn -/

structure IsScheduled {Val : Type} (i : Nat) (f : ActivityFunction Val) (input : Json) (e : Entry) :
    Prop where
  isAt : e.isAt i .scheduled = true
  stepName : e.payload.get? "step_name" = some (.str f.qualname)
  input : e.payload.get? "input" = some input

structure IsFailed (i attempt : Nat) (e : Entry) : Prop where
  isAt : e.isAt i .failed = true
  attempt : e.payload.get? "attempt" = some (.int attempt)

structure IsCompleted (i failures : Nat) (result : Json) (e : Entry) : Prop where
  isAt : e.isAt i .completed = true
  result : e.payload.get? "result" = some result
  attemptsTotal : e.payload.get? "attempts_total" = some (.int (failures + 1))

structure IsChildStarted (w : String) (i : Nat) (name : String) (input : Json) (e : Entry) :
    Prop where
  isAt : e.isAt i .childStarted = true
  childId : e.payload.get? "child_id" = some (.str (childWorkflowId w i))
  workflowName : e.payload.get? "workflow_name" = some (.str name)
  input : e.payload.get? "input" = some input

/-- FAILED events of the attempts `0, 1, ...` -/
inductive Attempts (i : Nat) : Nat → List Entry → Prop where
  | nil : Attempts i 0 []
  | snoc {k : Nat} {l : List Entry} {e : Entry} : Attempts i k l → IsFailed i k e →
      Attempts i (k + 1) (l ++ [e])

theorem Attempts.isAt {i k : Nat} {l : List Entry} (h : Attempts i k l) :
    ∀ e ∈ l, e.isAt i .failed = true := by
  induction h with
  | nil => simp
  | snoc _ he ih =>
    intro e hmem
    rcases List.mem_append.mp hmem with hmem | hmem
    · exact ih e hmem
    · rw [List.mem_singleton.mp hmem]
      exact he.isAt

theorem Attempts.length {i k : Nat} {l : List Entry} (h : Attempts i k l) : l.length = k := by
  induction h with
  | nil => rfl
  | snoc _ _ ih => rw [List.length_append, ih, List.length_singleton]

theorem Attempts.not_completed {Val : Type} {f : ActivityFunction Val} {input : Json} {sched : Entry}
    {i j k : Nat} {l : List Entry} (hsched : IsScheduled i f input sched) (h : Attempts i k l) :
    ∀ e ∈ sched :: l, e.isAt j .completed = false := by
  intro e he
  cases hat : e.isAt j .completed with
  | false => rfl
  | true =>
    have hty := (Entry.isAt_iff.mp hat).2
    rcases List.mem_cons.mp he with rfl | he
    · rw [(Entry.isAt_iff.mp hsched.isAt).2] at hty
      cases hty
    · rw [(Entry.isAt_iff.mp (h.isAt e he)).2] at hty
      cases hty

/-! ## programs -/

section
variable {Val : Type}

/-- what the function does after its awaits have delivered the values `vs` -/
def Program.next (P : Program Val) (vs : List Val) : Action Val := P (vs.map .ok)

/-- there is no handler around an await: what an await raises ends the function -/
def Program.HandlerFree (P : Program Val) : Prop := ∀ delivered error,
  P (delivered ++ [.error error]) = .raise error

/-- a recorded `v` is restored as `v` -/
def ActivityFunction.Plain (rt : Runtime Val) (f : ActivityFunction Val) (v : Val) : Prop :=
  ∀ result, rt.dumps v = .ok result → f.fromJsonSafe result = .ok v

/-- a workflow whose runs can be replayed; `yields f args v` when the body of `f` may return `v` -/
structure Replayable (Val : Type) where
  rt : Runtime Val
  workflowId : String
  program : Program Val
  yields : ActivityFunction Val → JsonSafe → Val → Prop
  handler_free : program.HandlerFree
  plain : ∀ f args v, yields f args v → f.Plain rt v

/-! ## the grammar -/

/-- a step of `W` leaves a block and delivers a value -/
inductive Leaves (W : Replayable Val) (R : Wait → Outcome Val → Prop) :
    List Val → List Entry → Val → Prop where
  | activity {vs : List Val} {f : ActivityFunction Val} {input result : Json} {sched e : Entry}
      {fails : List Entry} {k : Nat} {v : Val}
      (hP : W.program.next vs = .activity f (.ok (.json input)))
      (hsched : IsScheduled vs.length f input sched) (hfails : Attempts vs.length k fails)
      (he : IsCompleted vs.length k result e) (hv : f.fromJsonSafe result = .ok v)
      (hyield : W.yields f (.json input) v) : Leaves W R vs (sched :: (fails ++ [e])) v
  | sleep {vs : List Val} {seconds minutes hours days : ℚ} {e : Entry}
      (hP : W.program.next vs = .sleep seconds minutes hours days)
      (he : e.isAt vs.length .sleep = true) : Leaves W R vs [e] (W.rt.ofJson .null)
  | spawnChild {vs : List Val} {name : String} {input : Json} {e : Entry}
      (hP : W.program.next vs = .spawnChild name (.ok input))
      (he : IsChildStarted W.workflowId vs.length name input e) :
      Leaves W R vs [e] (W.rt.ofJson (.str (childWorkflowId W.workflowId vs.length)))
  | wait {vs : List Val} {wait : Wait} {v : Val} (hP : (W.program.next vs).wait? = some wait)
      (hv : R wait (.ok v)) : Leaves W R vs [] v

/-- an activity that has been scheduled and has failed `k` times -/
inductive LeavesOpen (W : Replayable Val) : List Val → List Entry → Prop where
  | activity {vs : List Val} {f : ActivityFunction Val} {input : Json} {sched : Entry}
      {fails : List Entry} {k : Nat} (hP : W.program.next vs = .activity f (.ok (.json input)))
      (hsched : IsScheduled vs.length f input sched) (hfails : Attempts vs.length k fails) :
      LeavesOpen W vs (sched :: fails)

theorem LeavesOpen.index {W : Replayable Val} {vs : List Val} {b : List Entry}
    (h : LeavesOpen W vs b) : ∀ e ∈ b, e.stepIndex = (vs.length : Int) := by
  cases h with
  | activity hP hsched hfails =>
    intro e he
    rcases List.mem_cons.mp he with rfl | he
    · exact (Entry.isAt_iff.mp hsched.isAt).1
    · exact (Entry.isAt_iff.mp (hfails.isAt e he)).1

theorem Leaves.index {W : Replayable Val} {R : Wait → Outcome Val → Prop} {vs : List Val}
    {b : List Entry} {v : Val} (h : Leaves W R vs b v) :
    ∀ e ∈ b, e.stepIndex = (vs.length : Int) := by
  cases h with
  | activity hP hsched hfails he =>
    intro a ha
    rcases List.mem_cons.mp ha with rfl | ha
    · exact (Entry.isAt_iff.mp hsched.isAt).1
    · rcases List.mem_append.mp ha with ha | ha
      · exact (Entry.isAt_iff.mp (hfails.isAt a ha)).1
      · rw [List.mem_singleton.mp ha]
        exact (Entry.isAt_iff.mp he.isAt).1
  | sleep hP he =>
    intro a ha
    rw [List.mem_singleton.mp ha]
    exact (Entry.isAt_iff.mp he).1
  | spawnChild hP he =>
    intro a ha
    rw [List.mem_singleton.mp ha]
    exact (Entry.isAt_iff.mp he.isAt).1
  | wait hP hv => simp

def Replayable.grammar (W : Replayable Val) (R : Wait → Outcome Val → Prop) :
    Grammar Val Entry where
  index := Entry.stepIndex
  block := Leaves W R
  opened := LeavesOpen W
  index_block := Leaves.index
  index_opened := LeavesOpen.index

theorem Leaves.mono {W : Replayable Val} {R R' : Wait → Outcome Val → Prop}
    (hR : ∀ wait o, R wait o → R' wait o) {vs : List Val} {b : List Entry} {v : Val}
    (h : Leaves W R vs b v) : Leaves W R' vs b v := by
  cases h with
  | activity hP hsched hfails he hv hyield => exact .activity hP hsched hfails he hv hyield
  | sleep hP he => exact .sleep hP he
  | spawnChild hP he => exact .spawnChild hP he
  | wait hP hv => exact .wait hP (hR _ _ hv)

theorem Replayable.steps_mono {W : Replayable Val} {R R' : Wait → Outcome Val → Prop}
    (hR : ∀ wait o, R wait o → R' wait o) {vs : List Val} {l : List Entry}
    (h : (W.grammar R).Steps vs l) : (W.grammar R').Steps vs l :=
  h.mono fun _ _ _ hb => Leaves.mono hR hb

theorem Replayable.rest_mono {W : Replayable Val} {R R' : Wait → Outcome Val → Prop}
    (hR : ∀ wait o, R wait o → R' wait o) {vs : List Val} {l : List Entry}
    (h : (W.grammar R).Rest vs l) : (W.grammar R').Rest vs l := by
  refine Grammar.Rest.mono ?_ ?_ h
  · exact fun _ _ _ hb => Leaves.mono hR hb
  · exact fun _ _ ho => ho

/-! ## a log is read in one way only -/

/-- an answer stays what it was when it was first read -/
def Replayable.Functional (W : Replayable Val) (R : Wait → Outcome Val → Prop) : Prop :=
  ∀ vs wait o o', (W.program.next vs).wait? = some wait → R wait o → R wait o' → o = o'

theorem Replayable.unambiguous {W : Replayable Val} {R : Wait → Outcome Val → Prop}
    (hR : W.Functional R) : (W.grammar R).Unambiguous := by
  intro vs b b' m v v' h h' hb hb'
  replace h : Leaves W R vs b v := h
  replace h' : Leaves W R vs b' v' := h'
  have hcompleted : ∀ {k fails}, Attempts vs.length k fails →
      ∀ e ∈ fails, (e.eventType == .completed) = false := fun hfails e he => by
    rw [(Entry.isAt_iff.mp (hfails.isAt e he)).2]
    rfl
  have hlast : ∀ {k result e}, IsCompleted vs.length k result e →
      (e.eventType == .completed) = true := fun he => by
    rw [(Entry.isAt_iff.mp he.isAt).2]
    rfl
  cases h with
  | @activity f input result sched e fails k _ hP hsched hfails he hv hyield =>
    cases h' with
    | @activity f' input' result' sched' e' fails' k' _ hP' hsched' hfails' he' hv' hyield' =>
      obtain ⟨rfl, -⟩ := Action.activity.inj (hP.symm.trans hP')
      obtain ⟨t, rfl⟩ := hb
      obtain ⟨rfl, hrest⟩ := List.cons_prefix_cons.mp hb'
      obtain ⟨rfl, rfl⟩ := List.first_of_prefix (p := fun e => e.eventType == .completed)
        (hcompleted hfails) (hcompleted hfails') (hlast he) (hlast he')
        (List.prefix_append _ t) hrest
      have hresult := he.result.symm.trans he'.result
      rw [Option.some.inj hresult] at hv
      exact ⟨rfl, Except.ok.inj (hv.symm.trans hv')⟩
    | sleep hP' _ => cases hP.symm.trans hP'
    | spawnChild hP' _ => cases hP.symm.trans hP'
    | wait hP' _ =>
      rw [hP] at hP'
      cases hP'
  | sleep hP he =>
    cases h' with
    | activity hP' => cases hP.symm.trans hP'
    | sleep hP' he' =>
      obtain ⟨t, rfl⟩ := hb
      exact ⟨(by rw [(List.cons_prefix_cons.mp hb').1]), rfl⟩
    | spawnChild hP' _ => cases hP.symm.trans hP'
    | wait hP' _ =>
      rw [hP] at hP'
      cases hP'
  | spawnChild hP he =>
    cases h' with
    | activity hP' => cases hP.symm.trans hP'
    | sleep hP' he' => cases hP.symm.trans hP'
    | spawnChild hP' _ =>
      obtain ⟨t, rfl⟩ := hb
      exact ⟨(by rw [(List.cons_prefix_cons.mp hb').1]), rfl⟩
    | wait hP' _ =>
      rw [hP] at hP'
      cases hP'
  | wait hP hv =>
    cases h' with
    | wait hP' hv' =>
      obtain rfl := Option.some.inj (hP.symm.trans hP')
      exact ⟨rfl, Except.ok.inj (hR vs _ _ _ hP hv hv')⟩
    | _ hP' =>
      rw [hP'] at hP
      cases hP

end

end TemporalLight
