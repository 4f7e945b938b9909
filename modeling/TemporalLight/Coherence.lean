import TemporalLight.Divergence
import TemporalLight.Durability

/-!
# Code that has not changed is never taken to have changed

A run compares its activities with the SCHEDULED events of earlier runs.  Where all workers run the
same code no comparison fails, wherever a crash or a retry has cut the earlier runs off.

* `recorded_at`     the call that a step event was written by
* `never_detected`  so no call of a run raises `DivergenceError` on its own account
-/

namespace TemporalLight
open Runs Resumption

section
variable {Val : Type} {d : Deployment Val} {s : Sys Val} {W : Replayable Val}

/-- the event at the step after `vs` is of the activity that the function calls there -/
theorem Leaves.activity_at {R : Wait → Outcome Val → Prop} {vs : List Val} {b : List Entry}
    {v : Val} (h : Leaves W R vs b v) {e : Entry} (he : e ∈ b) :
    (e.eventType = .scheduled → ∃ f input, W.program.next vs = .activity f (.ok (.json input))
        ∧ IsScheduled vs.length f input e)
      ∧ (e.eventType = .completed → ∃ f input result u,
        W.program.next vs = .activity f (.ok (.json input))
          ∧ e.payload.get? "result" = some result ∧ f.fromJsonSafe result = .ok u) := by
  have hne {ty ty' : EventType} {i : Nat} (hat : e.isAt i ty = true) (hty : e.eventType = ty')
      (hne : ty ≠ ty') : False :=
    hne ((Entry.isAt_iff.mp hat).2.symm.trans hty)
  cases h with
  | activity hP hsched hfails he' hv hyield =>
    rcases List.mem_cons.mp he with rfl | he
    · exact ⟨fun _ => ⟨_, _, hP, hsched⟩, fun hty => (hne hsched.isAt hty (by decide)).elim⟩
    rcases List.mem_append.mp he with he | he
    · have hat := hfails.isAt e he
      exact ⟨fun hty => (hne hat hty (by decide)).elim, fun hty => (hne hat hty (by decide)).elim⟩
    · obtain rfl := List.mem_singleton.mp he
      exact ⟨fun hty => (hne he'.isAt hty (by decide)).elim,
        fun _ => ⟨_, _, _, _, hP, he'.result, hv⟩⟩
  | sleep hP he' =>
    obtain rfl := List.mem_singleton.mp he
    exact ⟨fun hty => (hne he' hty (by decide)).elim, fun hty => (hne he' hty (by decide)).elim⟩
  | spawnChild hP he' =>
    obtain rfl := List.mem_singleton.mp he
    exact ⟨fun hty => (hne he'.isAt hty (by decide)).elim,
      fun hty => (hne he'.isAt hty (by decide)).elim⟩
  | wait hP hv => cases he

theorem LeavesOpen.activity_at {vs : List Val} {b : List Entry} (h : LeavesOpen W vs b) {e : Entry}
    (he : e ∈ b) :
    (e.eventType = .scheduled → ∃ f input, W.program.next vs = .activity f (.ok (.json input))
        ∧ IsScheduled vs.length f input e)
      ∧ e.eventType ≠ .completed := by
  cases h with
  | activity hP hsched hfails =>
    rcases List.mem_cons.mp he with rfl | he
    · have hty := (Entry.isAt_iff.mp hsched.isAt).2
      exact ⟨fun _ => ⟨_, _, hP, hsched⟩, by rw [hty]; decide⟩
    · have hty := (Entry.isAt_iff.mp (hfails.isAt e he)).2
      exact ⟨fun h => absurd (hty.symm.trans h) (by decide), by rw [hty]; decide⟩

theorem mem_log_of_stepping {ok : Sys Val → Label Val → Prop} (hs : Reachable d ok s) {t : Nat}
    {r : Run Val} (hr : s.run? t = some r) {c : Engine Val Val} (hc : r.code = .stepping c)
    {e : EventRecord} (he : e ∈ r.context.eventHistory) : e ∈ s.history r.workflowId := by
  obtain ⟨tx, alive, hth⟩ := Sys.thread_of_run? hr
  have hcode := (task_ok hs hth).code
  unfold Run.CodeOk at hcode
  rw [hc] at hcode
  exact mem_events_of_loaded hs hcode.1.history he

/-- **A step event that a run finds at its step was written by the call that it now makes.** -/
theorem recorded_at {ok : Sys Val → Label Val → Prop} (hW : W.ReplayedIn d ok)
    (hs : Reachable d ok s) {t : Nat} {r : Run Val} (hr : s.run? t = some r)
    (hw : r.workflowId = W.workflowId) {c : Engine Val Val} (hc : r.code = .stepping c)
    {e : EventRecord} (he : e ∈ r.context.eventHistory) {ty : EventType}
    (hat : e.toEntry.isAt r.delivered.length ty = true) :
    (ty = .scheduled → ∃ f input, r.program r.delivered = .activity f (.ok (.json input))
        ∧ IsScheduled r.delivered.length f input e.toEntry)
      ∧ (ty = .completed → ∃ f input result u, r.program r.delivered = .activity f (.ok (.json input))
        ∧ e.payload.get? "result" = some result ∧ f.fromJsonSafe result = .ok u) := by
  have hstraight := straight_ok hW.admits hs hr hw
  unfold Run.Straight at hstraight
  rw [hc] at hstraight
  obtain ⟨hprogram, hdelivered⟩ := hstraight
  have haction : r.program r.delivered = W.program.next r.values := by
    rw [hprogram, hdelivered]
    rfl
  have hlength : r.delivered.length = r.values.length := by rw [hdelivered, List.length_map]
  obtain ⟨hindex, hty⟩ := Entry.isAt_iff.mp hat
  have hmem : e.toEntry ∈ stepEntries (s.history W.workflowId) :=
    List.mem_filter.mpr ⟨List.mem_map_of_mem (hw ▸ mem_log_of_stepping hs hr hc he),
      Entry.isStep_of_isAt hat⟩
  -- the step of the event comes after the values that the run has been given
  obtain ⟨us, done, b, hus, hpre, heb, hb⟩ := Grammar.Rest.steps_at .nil (follow_ok hW hs).log hmem
  obtain ⟨done', hdone', hpre'⟩ := values_ok hW hs hr hw
  have hsame (hindex' : e.stepIndex = (us.length : Int)) : us = r.values := by
    have hlen : us.length = r.values.length := by
      rw [hindex, hlength] at hindex'
      exact_mod_cast hindex'.symm
    rcases hus.prefix_or (Replayable.unambiguous (hW.functional s hs)) hdone' hpre hpre' with h | h
    · exact h.eq_of_length hlen
    · exact (h.eq_of_length hlen.symm).symm
  rw [haction, hlength]
  rcases hb with ⟨v, hb⟩ | ho
  · have hb : Leaves W _ us b v := hb
    obtain rfl := hsame (hb.index e.toEntry heb)
    exact ⟨fun h => (hb.activity_at heb).1 (hty.trans h),
      fun h => (hb.activity_at heb).2 (hty.trans h)⟩
  · have ho : LeavesOpen W us b := ho
    obtain rfl := hsame (ho.index e.toEntry heb)
    exact ⟨fun h => (ho.activity_at heb).1 (hty.trans h),
      fun h => absurd (hty.trans h) (ho.activity_at heb).2⟩

theorem WorkflowContext.isAt_findEvent {ctx : WorkflowContext} {i : Nat} {ty : EventType}
    {e : EventRecord} (h : ctx.findEvent i ty = some e) : e.toEntry.isAt i ty = true := by
  have hfound := List.find?_some h
  exact hfound

/-- the comparisons of a call with what it has itself recorded -/
theorem WorkflowContext.not_detects {rt : Runtime Val} {ctx : WorkflowContext} {call : Action Val}
    (hcompleted : ∀ e, ctx.findCompletedEvent ctx.stepCounter = some e → ∃ f input result u,
      call = .activity f (.ok (.json input)) ∧ e.payload.get? "result" = some result
        ∧ f.fromJsonSafe result = .ok u)
    (hscheduled : ∀ e, ctx.findScheduledEvent ctx.stepCounter = some e → ∃ f input,
      call = .activity f (.ok (.json input)) ∧ IsScheduled ctx.stepCounter f input e.toEntry) :
    ctx.Detects rt call → ∃ f message, call = .activity f (.error (.divergenceError message)) := by
  intro h
  cases call with
  | activity f arguments =>
    unfold WorkflowContext.Detects at h
    cases hc : ctx.findCompletedEvent ctx.stepCounter with
    | some completed =>
      simp only [hc] at h
      obtain ⟨message, h⟩ := h
      obtain ⟨f', input, result, u, hcall, hresult, hrestored⟩ := hcompleted completed hc
      obtain ⟨rfl, rfl⟩ := Action.activity.inj hcall
      have hok : (getItem completed.payload "result" >>= f.fromJsonSafe) = .ok u := by
        rw [getItem_of_get? hresult]
        exact hrestored
      cases hok.symm.trans h
    | none =>
      simp only [hc] at h
      cases arguments with
      | error e =>
        obtain ⟨message, rfl⟩ := h
        exact ⟨f, message, rfl⟩
      | ok serializable =>
        obtain ⟨scheduled, hf, -, h⟩ := h
        obtain ⟨f', input, hcall, hsched⟩ := hscheduled scheduled hf
        obtain ⟨rfl, hinput⟩ := Action.activity.inj hcall
        obtain rfl := Except.ok.inj hinput
        have hname : scheduled.payload.get? "step_name" = some (.str f.qualname) := hsched.stepName
        have hinput : scheduled.payload.get? "input" = some input := hsched.input
        rw [Json.getIs_of_get? _ hname, hinput, Option.getD_some, JsonSafe.contradicts_json,
          Json.pyEq_refl, Json.pyEq_refl] at h
        rcases h with h | h <;> cases h
  | _ => cases h

end

section
variable {Val : Type} {d : Deployment Val} {s : Sys Val}

/-- **Where the code has not changed, no call of a run raises `DivergenceError`, unless converting
its arguments does so itself.** -/
theorem never_detected {w : String} {P : Program Val} (hd : d.HandlerFree)
    (hs : Reachable d (Sys.Regular d w P) s)
    (hP : s.program? (d.workflowRegistry 0) w = some P) {t : Nat} {r : Run Val}
    (hr : s.run? t = some r) (hw : r.workflowId = w) {c : Engine Val Val}
    (hc : r.code = .stepping c) (hcall : (r.program r.delivered).isStep = true) :
    Detected d.toRuntime r.stepContext (r.program r.delivered) →
      ∃ f message, r.program r.delivered = .activity f (.error (.divergenceError message)) := by
  obtain ⟨ok', hW, hs'⟩ := hd.replayed hs hP
  have hfound {ty : EventType} {e : EventRecord}
      (he : r.stepContext.findEvent r.stepContext.stepCounter ty = some e) :=
    recorded_at hW hs' hr hw hc (List.mem_of_find?_eq_some he) (WorkflowContext.isAt_findEvent he)
  rw [detected_iff hcall]
  refine WorkflowContext.not_detects (fun e he => ?_) fun e he => ?_
  · exact (hfound he).2 rfl
  · exact (hfound he).1 rfl

end

def Action.hasArguments {Val : Type} : Action Val → Bool
  | .activity _ (.ok _) => true
  | _ => false

/-- the run of thread `t` is at step 0 of `w`, which has been scheduled and has failed -/
def Sys.retriesFirst (s : Sys Json) (t : Nat) : Bool :=
  (s.run? t).any fun r => r.workflowId == "w" && (r.program r.delivered).hasArguments
    && (r.stepContext.findScheduledEvent r.stepContext.stepCounter).isSome && match r.code with
      | .stepping _ => true
      | _ => false

theorem never_detected_charged : ∃ (s : Sys Json) (r : Run Json), s.run? 2 = some r
    ∧ (r.stepContext.findScheduledEvent r.stepContext.stepCounter).isSome = true
    ∧ ¬Detected chargesCard.toRuntime r.stepContext (r.program r.delivered) := by
  obtain ⟨s, hs, hP, h⟩ := chargesCard_reached (P := fun s => s.retriesFirst 2)
    (firstAttempt ++ secondAttempt) (by decide +kernel)
  obtain ⟨r, hr, h⟩ := (Option.any_eq_true _ _).mp h
  simp only [Bool.and_eq_true, beq_iff_eq] at h
  obtain ⟨⟨⟨hw, hcall⟩, hscheduled⟩, hcode⟩ := h
  have hstep : (r.program r.delivered).isStep = true := by
    cases haction : r.program r.delivered with
    | activity f arguments => rfl
    | _ =>
      rw [haction] at hcall
      cases hcall
  split at hcode
  · rename_i c hc
    refine ⟨s, r, hr, hscheduled, fun hdetected => ?_⟩
    obtain ⟨f, message, haction⟩ :=
      never_detected chargesCard_handlerFree hs hP hr hw hc hstep hdetected
    rw [haction] at hcall
    cases hcall
  · cases hcode

end TemporalLight
