import TemporalLight.Exclusion

/-!
# Sleeps

The SLEEP event says when a sleep is over.  The row says when the workflow is to run again, and
signals and the ends of children move that to an earlier time; so a run may come to a sleep before
it is over, and has to put the workflow off once more.

* `SleepView`   what a run that sleeps sees of the shared state
* `sleepRules`  the other parties leave its steps alone, and it writes a SLEEP event only once
* `wp_sleep`    a sleep that goes on is over; otherwise the row is put off until it is
-/

namespace TemporalLight
open Runs Resumption

section
variable {Val α : Type}

/-! ## what a run that sleeps sees -/

structure SleepView where
  clock : Int
  /-- the run holds the lease -/
  held : Prop
  /-- the step events of the log -/
  steps : List Entry
  /-- the last write of the run was to put the row off until this time -/
  putOff : Int → Prop

/-- the other parties leave the steps of a run alone while it holds the lease -/
structure SleepView.Le (v v' : SleepView) : Prop where
  clock : v.clock ≤ v'.clock
  held : v.held → v'.held
  steps : v.held → v'.steps = v.steps
  mem : ∀ e ∈ v.steps, e ∈ v'.steps
  released : ¬ v.held → ¬ v'.held
  putOff : ¬ v.held → ∀ time, v.putOff time → v'.putOff time

theorem SleepView.Le.refl (v : SleepView) : v.Le v :=
  ⟨le_rfl, id, fun _ => rfl, fun _ => id, id, fun _ _ => id⟩

theorem SleepView.Le.trans {v v' v'' : SleepView} (h : v.Le v') (h' : v'.Le v'') : v.Le v'' where
  clock := h.clock.trans h'.clock
  held := h'.held ∘ h.held
  steps hheld := (h'.steps (h.held hheld)).trans (h.steps hheld)
  mem e he := h'.mem e (h.mem e he)
  released := h'.released ∘ h.released
  putOff hnot time hput := h'.putOff (h.released hnot) time (h.putOff hnot time hput)

/-- a transaction that neither raises nor returns `False` -/
def Txn.Succeeds (d : Deployment Val) : Txn → Prop
  | .updateWorkflowRunAt _ _ => True
  | .insertEvent _ _ _ _ (.ok payload) => d.jsonbRejects payload = none
  | _ => False

/-- a SLEEP event is only written where there is none -/
def SleepView.Allows (w : String) (v : SleepView) : Call Val → Prop
  | .transaction (.insertEvent w' i _ .sleep _) =>
    w' = w → ∀ e ∈ v.steps, ¬ (e.stepIndex = i ∧ e.eventType = .sleep)
  | _ => True

/-- the reply to a call of a run of `w` -/
def SleepView.Answers (d : Deployment Val) (w : String) (v v' : SleepView) :
    (q : Call Val) → q.Reply → Prop
  | .now, (time : Int) => v.Le v' ∧ time ≤ v'.clock
  | .loadEventHistory w', (history : List EventRecord) =>
    v.Le v' ∧ (w' = w → v.held → stepEntries history = v'.steps)
  | .transaction txn, result => (txn.Succeeds d → (result : Except PyExc Bool) = .ok true)
    ∧ ((result : Except PyExc Bool) = .ok true → v.held → v.clock ≤ v'.clock
      ∧ v'.steps = v.steps ++ txn.stepEntries w ∧ (txn.releases = false → v'.held)
      ∧ ∀ time, txn = .updateWorkflowRunAt w time → ¬ v'.held ∧ v'.putOff time)
  | _, _ => v.Le v'

def sleepRules (d : Deployment Val) (w : String) : Rules (Call Val) Call.Reply SleepView where
  rely := SleepView.Le
  ask q v := v.Allows w q
  answer q reply v v' := v.Answers d w v' q reply
  keep _ _ := True
  rely_refl := .refl
  rely_trans := .trans

/-! ## the code of a sleep -/

/-- `wakeup_at` of a SLEEP event -/
def wakeupAt (rt : Runtime Val) (e : Entry) : Int :=
  rt.fromisoformat (match e.payload.get? "wakeup_at" with
    | some (.str s) => s
    | _ => "")

/-- begun before `clock`, the sleep has an end that is no `datetime`: it has raised the
`OverflowError` -/
def Action.IsOutOfRange (action : Action Val) (clock : Int) (o : Outcome Val) : Prop :=
  match action with
  | .sleep seconds minutes hours days => ∃ time ≤ clock, ∃ error,
    timeAfter time (totalSeconds seconds minutes hours days) = .error error ∧ o = .error error
  | _ => False

theorem Action.IsOutOfRange.le {action : Action Val} {clock clock' : Int} {o : Outcome Val}
    (h : action.IsOutOfRange clock o) (hclock : clock ≤ clock') : action.IsOutOfRange clock' o := by
  cases action with
  | sleep seconds minutes hours days =>
    obtain ⟨time, htime, h⟩ := h
    exact ⟨time, htime.trans hclock, h⟩
  | _ => cases h

theorem Action.IsOutOfRange.suspends {action : Action Val} {clock : Int} {o : Outcome Val}
    (h : action.IsOutOfRange clock o) : suspends o = false := by
  cases action with
  | sleep seconds minutes hours days =>
    obtain ⟨time, -, error, herror, rfl⟩ := h
    obtain ⟨message, rfl⟩ := timeAfter_error herror
    rfl
  | _ => cases h

/-- the sleep `action` at step `i` has come to the outcome `o`: it is over, or the row is put off,
or there was no SLEEP event in the snapshot and its end was out of range -/
def Slept (rt : Runtime Val) (snapshot : List EventRecord) (action : Action Val) (i : Nat)
    (o : Outcome Val) (v : SleepView) : Prop :=
  ((∀ e ∈ snapshot, e.toEntry.isAt i .sleep = false) ∧ action.IsOutOfRange v.clock o)
  ∨ ∃ e ∈ v.steps, e.isAt i .sleep = true
    ∧ ((o = .ok (rt.ofJson .null) ∧ wakeupAt rt e ≤ v.clock)
      ∨ (suspends o = true ∧ ¬ v.held ∧ v.putOff (wakeupAt rt e)))

theorem Slept.le {rt : Runtime Val} {snapshot : List EventRecord} {action : Action Val} {i : Nat}
    {o : Outcome Val} {v v' : SleepView} (h : Slept rt snapshot action i o v) (hv : v.Le v') :
    Slept rt snapshot action i o v' := by
  rcases h with ⟨hnone, hrange⟩ | ⟨e, he, hat, ⟨ho, hclock⟩ | ⟨ho, hnot, hput⟩⟩
  · exact .inl ⟨hnone, hrange.le hv.clock⟩
  · exact .inr ⟨e, hv.mem e he, hat, .inl ⟨ho, hclock.trans hv.clock⟩⟩
  · exact .inr ⟨e, hv.mem e he, hat, .inr ⟨ho, hv.released hnot, hv.putOff hnot _ hput⟩⟩

section
variable {d : Deployment Val} {w : String} {v : SleepView} {i : Nat}
  {Φ : Except PyExc α → SleepView → Prop}

theorem wp_bind_now {f : Int → Engine Val α}
    (h : ∀ time v', v.Le v' → time ≤ v'.clock → wp (sleepRules d w) (f time).run Φ v') :
    wp (sleepRules d w) (now >>= f).run Φ v := by
  refine wp_run_bind ?_
  rw [run_now]
  intro v₁ hv₁
  refine ⟨trivial, fun (time : Int) v₂ hans => ⟨trivial, fun v₃ hv₃ => ?_⟩⟩
  exact h time v₃ ((hv₁.trans hans.1).trans hv₃) (hans.2.trans hv₃.clock)

theorem wp_bind_transaction {txn : Txn} {f : Bool → Engine Val α} (hheld : v.held)
    (hask : ∀ v', v.Le v' → v'.Allows w (.transaction txn : Call Val)) (hsucceeds : txn.Succeeds d)
    (h : ∀ v', v.clock ≤ v'.clock → v'.steps = v.steps ++ txn.stepEntries w →
      (txn.releases = false → v'.held) →
      (∀ time, txn = .updateWorkflowRunAt w time → ¬ v'.held ∧ v'.putOff time) →
      wp (sleepRules d w) (f true).run Φ v') :
    wp (sleepRules d w) (transaction txn >>= f).run Φ v := by
  refine wp_run_bind ?_
  rw [run_transaction]
  intro v₁ hv₁
  refine ⟨hask v₁ hv₁, fun reply v₂ hans => ⟨trivial, ?_⟩⟩
  obtain rfl : reply = .ok true := hans.1 hsucceeds
  obtain ⟨hclock, hsteps, hkeep, hput⟩ := hans.2 rfl (hv₁.held hheld)
  rw [hv₁.steps hheld] at hsteps
  exact fun v₃ hv₃ => wp_rely hv₃ (h v₂ (hv₁.clock.trans hclock) hsteps hkeep hput)

theorem wp_bind_writeEvent {n : String} {j : Int} {ty : EventType} {payload : Json}
    {f : Unit → Engine Val α} (hheld : v.held)
    (hask : ∀ v', v.Le v' → v'.Allows w
      (.transaction (.insertEvent w j n ty (.ok payload)) : Call Val))
    (hsucceeds : d.jsonbRejects payload = none)
    (h : ∀ v', v'.held →
      v'.steps = v.steps ++ (Txn.insertEvent w j n ty (.ok payload)).stepEntries w →
      wp (sleepRules d w) (f ()).run Φ v') :
    wp (sleepRules d w) (writeEvent w j n ty (.ok payload) >>= f).run Φ v := by
  refine wp_run_bind ?_
  refine wp_bind_transaction hheld hask hsucceeds fun v₁ _ hsteps hkeep _ => ?_
  intro v₂ hv₂
  refine ⟨trivial, fun _ v₃ (hv₃ : v₂.Le v₃) => ⟨trivial, fun v₄ hv₄ => ?_⟩⟩
  have hv := (hv₂.trans hv₃).trans hv₄
  have hheld₁ := hkeep rfl
  exact h v₄ (hv.held hheld₁) (by rw [hv.steps hheld₁, hsteps])

theorem wp_putOff (snapshot : List EventRecord) (action : Action Val) {e : Entry} (hheld : v.held)
    (he : e ∈ v.steps) (hat : e.isAt i .sleep = true) (message : String) :
    wp (sleepRules d w) (transaction (.updateWorkflowRunAt w (wakeupAt d.toRuntime e)) >>= fun _ =>
      throw (.workflowSuspended message) : Engine Val Val).run
      (Slept d.toRuntime snapshot action i) v := by
  refine wp_bind_transaction hheld (fun _ _ => trivial) trivial fun v₁ _ hsteps _ hput v₂ hv₂ => ?_
  obtain ⟨hnot, hput⟩ := hput _ rfl
  refine Slept.le (.inr ⟨e, ?_, hat, .inr ⟨rfl, hnot, hput⟩⟩) hv₂
  rw [hsteps]
  exact List.mem_append_left _ he

/-- **A sleep goes on when it is over; before that it puts the row off until it is.** -/
theorem wp_sleep {ctx : WorkflowContext} (hjson : ∀ time, d.jsonbRejects
      (.obj [("wakeup_at", .str (d.isoformat time))]) = none) (hheld : v.held)
    (hw : ctx.workflowId = w) (hi : ctx.stepCounter = i)
    (hsnap : v.steps.filter (Entry.isAt i .sleep)
      = (stepEntries ctx.eventHistory).filter (Entry.isAt i .sleep))
    (seconds minutes hours days : ℚ) :
    wp (sleepRules d w) (sleep d.toRuntime ctx seconds minutes hours days).run
      (Slept d.toRuntime ctx.eventHistory (.sleep seconds minutes hours days) i) v := by
  have hfound := find?_stepEntries ctx.eventHistory i .sleep
  unfold sleep
  rw [hw, show ctx.nextStepIndex.1 = i from hi]
  dsimp only
  split
  · rename_i event hevent
    have hevent' : (stepEntries ctx.eventHistory).find? (Entry.isAt i .sleep) = some event.toEntry :=
      hfound.trans (congrArg _ hevent)
    have hat : event.toEntry.isAt i .sleep = true := List.find?_some hevent'
    have hmem : event.toEntry ∈ v.steps := by
      have hfilter := List.mem_filter.mpr ⟨List.mem_of_find?_eq_some hevent', hat⟩
      rw [← hsnap] at hfilter
      exact (List.mem_filter.mp hfilter).1
    refine wp_bind_now fun time v₁ hv₁ htime => ?_
    split
    · rename_i hover
      exact fun v₂ hv₂ =>
        Slept.le (.inr ⟨_, hv₁.mem _ hmem, hat, .inl ⟨rfl, hover.trans htime⟩⟩) hv₂
    · exact wp_putOff _ _ (hv₁.held hheld) (hv₁.mem _ hmem) hat _
  · rename_i hevent
    have hnone : ∀ e ∈ v.steps, ¬ (e.stepIndex = (i : Int) ∧ e.eventType = .sleep) := by
      intro e he hat
      have hfilter := List.mem_filter.mpr ⟨he, Entry.isAt_iff.mpr hat⟩
      rw [hsnap, List.filter_eq_nil_iff.mpr] at hfilter
      · cases hfilter
      · exact List.find?_eq_none.mp (hfound.trans (congrArg _ hevent))
    refine wp_bind_now fun time v₁ hv₁ hbegun => ?_
    have hheld₁ := hv₁.held hheld
    cases htime : timeAfter time (totalSeconds seconds minutes hours days) with
    | error error =>
      refine fun v₂ hv₂ => .inl ⟨fun e he => ?_, time, hbegun.trans hv₂.clock, error, htime, rfl⟩
      exact Bool.eq_false_iff.mpr (List.find?_eq_none.mp hevent e he)
    | ok wakeup =>
    show wp _ (writeEvent _ _ _ _ _ >>= _ : Engine Val Val).run _ _
    let e : Entry := ⟨w, i, "sleep", .sleep, .obj [("wakeup_at", .str (d.isoformat wakeup))]⟩
    have hwakeup : wakeupAt d.toRuntime e = wakeup := d.fromisoformat_isoformat wakeup
    have hat : e.isAt i .sleep = true := Entry.isAt_iff.mpr ⟨rfl, rfl⟩
    refine wp_bind_writeEvent hheld₁ (fun v₂ hv₂ _ => ?_) (hjson wakeup)
      fun v₂ hheld₂ hsteps₂ => ?_
    · rw [(hv₁.trans hv₂).steps hheld]
      exact hnone
    · have hmem : e ∈ v₂.steps := by
        rw [hsteps₂, Txn.stepEntries_insertEvent, List.filter_cons_of_pos (Entry.isStep_of_isAt hat)]
        exact List.mem_append_right _ List.mem_cons_self
      have hput := wp_putOff (d := d) (w := w) ctx.eventHistory (.sleep seconds minutes hours days)
        hheld₂ hmem hat ("Workflow sleeping until " ++ d.isoformat wakeup ++ ".")
      rw [hwakeup] at hput
      exact hput

/-! ## the rest of the code -/

theorem wp_of_writes {c : Resumption (Call Val) Call.Reply α} {j : Option Nat}
    {types : List EventType} (h : c.Asks (Call.Writes j types)) (hno : EventType.sleep ∉ types) :
    wp (sleepRules d w) c (fun _ _ => True) v := by
  refine wp_of_asks (fun q v' hq => ?_) (fun _ _ => trivial) h v
  cases q with
  | transaction txn =>
    cases txn with
    | insertEvent w' k n ty payload =>
      cases ty with
      | sleep => exact absurd hq.1 hno
      | _ => trivial
    | _ => trivial
  | _ => trivial

/-- a run starts with the steps that are in the log -/
theorem wp_startRun_steps (registry : String → Option (Json → Program Val)) {record : WorkflowRecord}
    (hw : record.workflowId = w) :
    wp (sleepRules d w) (startRun registry record).run (fun result v' =>
      ∀ p, result = .ok (some p) → v'.held → stepEntries p.2.eventHistory = v'.steps) v := by
  have hfail (message : String) (parentInfo : Option ParentInfo) (v : SleepView) :
      wp (sleepRules d w) (transaction (.failWorkflow record.workflowId message parentInfo)
        >>= fun _ => Pure.pure none : Engine Val (Option (Program Val × WorkflowContext))).run
        (fun result v' => ∀ p, result = .ok (some p) →
          v'.held → stepEntries p.2.eventHistory = v'.steps) v := by
    refine wp_run_bind ?_
    rw [run_transaction]
    intro v₁ _
    refine ⟨trivial, fun reply v₂ _ => ⟨trivial, fun v₃ _ => ?_⟩⟩
    cases reply with
    | ok b => exact fun _ _ p hp => by cases hp
    | error e => exact fun _ _ p hp => by cases hp
  unfold startRun
  refine wp_run_bind ?_
  rw [run_loadEventHistory]
  intro v₁ _
  refine ⟨trivial, fun (history : List EventRecord) v₂ hans => ⟨trivial, fun v₃ hv₃ => ?_⟩⟩
  dsimp only
  split
  · exact hfail _ _ _
  · split
    · exact hfail _ _ _
    · intro v₄ hv₄ p hp hheld
      obtain rfl := Option.some.inj (Except.ok.inj hp)
      have hv := hv₃.trans hv₄
      have hheld₂ : v₂.held := by_contra fun hnot => hv.released hnot hheld
      have hheld₁ : v₁.held := by_contra fun hnot => hans.1.released hnot hheld₂
      rw [hv.steps hheld₂]
      exact hans.2 hw hheld₁

end

end

end TemporalLight
