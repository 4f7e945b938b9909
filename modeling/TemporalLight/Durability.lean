import TemporalLight.Completions
import TemporalLight.Programs

/-!
# Durable execution

What crashes, suspensions and the other threads do not change about a workflow, where all workers
run the same code without handlers around the awaits.

* `log_well_formed`    each step has the events of one call in their order, and only the last step
                       may lack its COMPLETED event
* `step_values_agree`  every run that gets past a step is given the same value there
* `body_not_repeated`  a step that has been completed is not executed again
* `result_of_pass`     a recorded result is what one pass over the values of the steps computes
-/

namespace TemporalLight
open Runs Resumption

section
variable {Val : Type} {d : Deployment Val} {s s' : Sys Val} {ok : Sys Val → Label Val → Prop}
  {W : Replayable Val}

/-! ## deployments -/

/-- all workers run one version of the code, without handlers around the awaits of its workflows -/
structure Deployment.HandlerFree (d : Deployment Val) : Prop where
  one_version : ∀ t, d.workflowRegistry t = d.workflowRegistry 0
  handler_free : ∀ name f input, d.workflowRegistry 0 name = some f → (f input).HandlerFree

/-- the bodies of the activities of `W` return what they may -/
def Replayable.Yields (W : Replayable Val) (s : Sys Val) (l : Label Val) : Prop :=
  ∀ t r w i f args k v, l = .body t (.ok v) → s.run? t = some r → r.workflowId = W.workflowId →
    r.next? = some ⟨.runActivityBody w i f args, k⟩ → W.yields f args v

/-- **What is needed for a workflow to be replayed.** -/
theorem exists_replayedIn (hrt : W.rt = d.toRuntime)
    (hkeeps : ∀ s l s', Reachable d ok s → ok s l → Step d s l s' → s.keepsLease W.workflowId l)
    (hyields : ∀ s l, ok s l → W.Yields s l)
    (hfunctional : ∀ s, Reachable d ok s → W.Functional (s.reads W.rt W.workflowId))
    (hs : Reachable d ok s)
    (hP : ∀ t, s.program? (d.workflowRegistry t) W.workflowId = some W.program) :
    ∃ ok', W.ReplayedIn d ok' ∧ Reachable d ok' s := by
  have hadmits : Reachable d (fun s l => ok s l ∧ W.Admits s l) s := by
    refine Reach.toward hs fun s₁ l s₂ hs₁ hl hstep hrest =>
      ⟨hl, hkeeps s₁ l s₂ hs₁ hl (Step.of_step hstep), ?_, hyields s₁ l hl⟩
    intro t r c program ctx _ hr hw hc hval
    have hstarted := started_of_load hs₁ hr hc hval
    have hprogram := program_of_run hs₁ hstarted hr ((Reach.step l .start hl hstep).trans hrest)
    rw [hw, hP t] at hprogram
    exact (Option.some.inj hprogram).symm
  refine ⟨fun s l => (ok s l ∧ W.Admits s l) ∧ ∀ t r, l = .advance t → s.run? t = some r →
    r.workflowId = W.workflowId → r.staysSuspended d.toRuntime s.clock = true, ?_, ?_⟩
  · refine ⟨hrt, fun s l h => h.1.2, fun s t r h => h.2 t r rfl, fun s hs => ?_⟩
    exact hfunctional s (hs.mono fun _ _ h => h.1.1)
  · refine hadmits.strengthen fun s l s' hs hl _ => ⟨hl, fun t r _ hr hw => ?_⟩
    exact (straight_ok (fun _ _ h => h.2) hs hr hw).staysSuspended
      (fun P hP => hP ▸ W.handler_free) s.clock

theorem reads_functional {w : String} {wait : Wait}
    (hok : ∀ s l, Reachable d ok s → ok s l → s.answersInOrder w wait l = true)
    (hs : Reachable d ok s) {rt : Runtime Val} {o o' : Outcome Val} (h : s.reads rt w wait o)
    (h' : s.reads rt w wait o') : o = o' := by
  have hs' : Reachable d (fun s l => s.answersInOrder w wait l = true) s :=
    hs.strengthen fun s l _ hs hl _ => hok s l hs hl
  obtain ⟨history, first, hl, hfirst, rfl⟩ := h
  obtain ⟨history', first', hl', hfirst', rfl⟩ := h'
  have heq := (first_stable (fun _ _ => id) hs' hl hfirst).symm.trans
    (first_stable (fun _ _ => id) hs' hl' hfirst')
  rw [Option.some.inj heq]

/-! ## a workflow of a deployment -/

/-- the workflow `w` with the program `P` -/
def Deployment.replayable (d : Deployment Val) (w : String) {P : Program Val} (hP : P.HandlerFree) :
    Replayable Val where
  rt := d.toRuntime
  workflowId := w
  program := P
  yields f _ v := f.Plain d.toRuntime v
  handler_free := hP
  plain _ _ _ h := h

/-- no lease of a live run has lapsed, no signal of the reserved type is sent, no signal that the
program waits for is committed before one that has been read, and the results of the bodies
survive their way through JSON -/
structure Sys.Regular (d : Deployment Val) (w : String) (P : Program Val) (s : Sys Val)
    (l : Label Val) : Prop where
  live : s.leasesLive = true
  plain : l.plainSignal = true
  answers : ∀ vs signalType, P.next vs = .waitForSignal signalType →
    s.answersInOrder w (.signal signalType) l = true
  bodies : ∀ t r w' i f args k v, l = .body t (.ok v) → s.run? t = some r → r.workflowId = w →
    r.next? = some ⟨.runActivityBody w' i f args, k⟩ → f.Plain d.toRuntime v

theorem handlerFree_of_program? (hd : d.HandlerFree) {w : String} {P : Program Val}
    (hP : s.program? (d.workflowRegistry 0) w = some P) : P.HandlerFree := by
  obtain ⟨row, -, hrow⟩ := Option.bind_eq_some_iff.mp hP
  obtain ⟨input, -, hinput⟩ := Option.bind_eq_some_iff.mp hrow
  obtain ⟨f, hf, rfl⟩ := Option.map_eq_some_iff.mp hinput
  exact hd.handler_free row.name f input hf

theorem functional_of_plain {w : String} {P : Program Val} (hP : P.HandlerFree)
    (hplain : ∀ s l, ok s l → l.plainSignal = true)
    (hanswers : ∀ vs signalType, P.next vs = .waitForSignal signalType →
      ∀ s l, ok s l → s.answersInOrder w (.signal signalType) l = true)
    (hs : Reachable d ok s) : (d.replayable w hP).Functional (s.reads d.toRuntime w) := by
  intro vs wait o o' hwait h h'
  refine reads_functional (fun s l hs hl => ?_) hs h h'
  replace hwait : (P.next vs).wait? = some wait := hwait
  cases hnext : P.next vs with
  | waitForChild c =>
    rw [hnext] at hwait
    obtain rfl := Option.some.inj hwait
    exact completions_in_order hplain hs l w
  | waitForSignal signalType =>
    rw [hnext] at hwait
    obtain rfl := Option.some.inj hwait
    exact hanswers vs signalType hnext s l hl
  | _ =>
    rw [hnext] at hwait
    cases hwait

theorem regular_replayed {w : String} {P : Program Val} (hP : P.HandlerFree)
    (hs : Reachable d (Sys.Regular d w P) s)
    (hprogram : ∀ t, s.program? (d.workflowRegistry t) w = some P) :
    ∃ ok', (d.replayable w hP).ReplayedIn d ok' ∧ Reachable d ok' s :=
  exists_replayedIn rfl
    (fun _ _ _ hs h hstep => keepsLease_of_leasesLive hs hstep h.live w) (fun _ _ h => h.bodies)
    (fun _ hs => functional_of_plain hP (fun _ _ h => h.plain)
      (fun vs signalType hnext _ _ h => h.answers vs signalType hnext) hs) hs hprogram

theorem Deployment.HandlerFree.replayed {w : String} {P : Program Val} (hd : d.HandlerFree)
    (hs : Reachable d (Sys.Regular d w P) s)
    (hP : s.program? (d.workflowRegistry 0) w = some P) :
    ∃ ok', (d.replayable w (handlerFree_of_program? hd hP)).ReplayedIn d ok'
      ∧ Reachable d ok' s :=
  regular_replayed (handlerFree_of_program? hd hP) hs fun t => (hd.one_version t).symm ▸ hP

/-! ## the shape of the log -/

/-- the events of step `i`, in their order -/
inductive StepLog (i : Nat) : List Entry → Prop where
  | none : StepLog i []
  | attempts {sched : Entry} {fails : List Entry} {k : Nat} (hsched : sched.isAt i .scheduled = true)
      (hfails : Attempts i k fails) : StepLog i (sched :: fails)
  | completed {sched e : Entry} {fails : List Entry} {k : Nat}
      (hsched : sched.isAt i .scheduled = true) (hfails : Attempts i k fails)
      (he : e.isAt i .completed = true)
      (htotal : e.payload.get? "attempts_total" = some (.int (k + 1))) :
      StepLog i (sched :: (fails ++ [e]))
  | sleep {e : Entry} (he : e.isAt i .sleep = true) : StepLog i [e]
  | childStarted {e : Entry} (he : e.isAt i .childStarted = true) : StepLog i [e]

theorem Leaves.stepLog {R : Wait → Outcome Val → Prop} {vs : List Val} {b : List Entry} {v : Val}
    (h : Leaves W R vs b v) : StepLog vs.length b := by
  cases h with
  | activity hP hsched hfails he hv hyield =>
    exact .completed hsched.isAt hfails he.isAt he.attemptsTotal
  | sleep hP he => exact .sleep he
  | spawnChild hP he => exact .childStarted he.isAt
  | wait hP hv => exact .none

theorem LeavesOpen.stepLog {vs : List Val} {b : List Entry} (h : LeavesOpen W vs b) :
    StepLog vs.length b := by
  cases h with
  | activity hP hsched hfails => exact .attempts hsched.isAt hfails

theorem Leaves.completed {R : Wait → Outcome Val → Prop} {vs : List Val} {b : List Entry} {v : Val}
    (h : Leaves W R vs b v) {e : Entry} (he : e ∈ b) (hat : e.isAt vs.length .scheduled = true) :
    ∃ e' ∈ b, e'.isAt vs.length .completed = true := by
  have hty := (Entry.isAt_iff.mp hat).2
  cases h with
  | activity hP hsched hfails he' hv hyield => exact ⟨_, by simp, he'.isAt⟩
  | sleep hP he' =>
    rw [List.mem_singleton.mp he, (Entry.isAt_iff.mp he').2] at hty
    cases hty
  | spawnChild hP he' =>
    rw [List.mem_singleton.mp he, (Entry.isAt_iff.mp he'.isAt).2] at hty
    cases hty
  | wait hP hv => cases he

theorem filter_stepEntries (history : List EventRecord) (i : Nat) :
    (stepEntries history).filter (fun e => e.stepIndex == (i : Int))
      = (history.map EventRecord.toEntry).filter fun e => e.stepIndex == (i : Int) := by
  rw [stepEntries, List.filter_filter]
  refine List.filter_congr fun e _ => ?_
  by_cases h : e.stepIndex = (i : Int) <;> simp [h, Entry.isStep]

theorem stepLog_ok (hW : W.ReplayedIn d ok) (hs : Reachable d ok s) (i : Nat) :
    StepLog i (((s.history W.workflowId).map EventRecord.toEntry).filter
      fun e => e.stepIndex == (i : Int)) := by
  have hlog : (Replayable.grammar _ _).Rest [] (stepEntries (s.history W.workflowId)) :=
    (follow_ok hW hs).log
  rw [← filter_stepEntries]
  rcases hlog.at (i := i) (Nat.zero_le i) with hnil | ⟨us, rfl, ⟨v, hb⟩ | ⟨ho, -⟩⟩
  · show StepLog i (List.filter _ _)
    rw [show (stepEntries (s.history W.workflowId)).filter (fun e => e.stepIndex == (i : Int)) = []
      from hnil]
    exact .none
  · exact Leaves.stepLog hb
  · exact LeavesOpen.stepLog ho

/-- **The log of a workflow that is replayed is well formed.** -/
theorem log_well_formed {w : String} {P : Program Val} (hd : d.HandlerFree)
    (hs : Reachable d (Sys.Regular d w P) s)
    (hP : s.program? (d.workflowRegistry 0) w = some P) :
    (∀ i : Nat, StepLog i
        (((s.history w).map EventRecord.toEntry).filter fun e => e.stepIndex == (i : Int)))
      ∧ (stepEntries (s.history w)).Pairwise (fun a b => a.stepIndex ≤ b.stepIndex)
      ∧ ∀ i : Nat, (∃ e ∈ s.history w, e.toEntry.isAt i .scheduled = true) →
        (∀ e ∈ s.history w, e.toEntry.isAt i .completed = false) →
          ∀ e ∈ s.history w, e.stepIndex ≤ i := by
  obtain ⟨ok', hW, hs'⟩ := hd.replayed hs hP
  have hlog : (Replayable.grammar _ _).Rest [] (stepEntries (s.history w)) := (follow_ok hW hs').log
  have hat (i : Nat) := hlog.at (i := i) (Nat.zero_le i)
  refine ⟨fun i => stepLog_ok hW hs' i, hlog.sorted, fun i ⟨e, he, hsched⟩ hnot e' he' => ?_⟩
  have hmem : e.toEntry
      ∈ (stepEntries (s.history w)).filter (fun e => e.stepIndex == (i : Int)) := by
    refine List.mem_filter.mpr ⟨List.mem_filter.mpr ⟨List.mem_map_of_mem he, ?_⟩, ?_⟩
    · exact Entry.isStep_of_isAt hsched
    · exact beq_iff_eq.mpr (Entry.isAt_iff.mp hsched).1
  rcases hat i with hnil | ⟨us, rfl, ⟨v, hb⟩ | ⟨-, hle⟩⟩
  · rw [show (stepEntries (s.history w)).filter (fun e => e.stepIndex == (i : Int)) = [] from hnil]
      at hmem
    cases hmem
  · obtain ⟨e₁, he₁, hcompleted⟩ := Leaves.completed hb hmem hsched
    obtain ⟨a, ha, rfl⟩ := List.mem_map.mp (List.mem_filter.mp (List.mem_filter.mp he₁).1).1
    rw [hnot a ha] at hcompleted
    cases hcompleted
  · by_cases hstep : 0 ≤ e'.stepIndex
    · exact hle e'.toEntry (List.mem_filter.mpr
        ⟨List.mem_map_of_mem he', by simpa [Entry.isStep] using hstep⟩)
    · omega

/-! ## values -/

theorem Run.Straight.delivered {Q : Program Val → Prop} {r : Run Val} (h : r.Straight Q) :
    r.delivered = r.values.map .ok
      ∨ ∃ error, r.delivered = r.values.map .ok ++ [.error error] := by
  unfold Run.Straight at h
  cases hc : r.code with
  | starting c =>
    rw [hc] at h
    refine .inl ?_
    rw [Run.values, show r.delivered = [] from h]
    rfl
  | stepping c =>
    rw [hc] at h
    exact .inl h.2
  | _ =>
    rw [hc] at h
    exact h

/-- the value of a step -/
theorem Run.Straight.getElem?_values {Q : Program Val → Prop} {r : Run Val} (h : r.Straight Q)
    {i : Nat} {v : Val} (hi : r.delivered[i]? = some (.ok v)) : r.values[i]? = some v := by
  have hmap (h : (r.values.map Except.ok : List (Outcome Val))[i]? = some (.ok v)) :
      r.values[i]? = some v := by
    rw [List.getElem?_map] at h
    obtain ⟨v', hv', heq⟩ := Option.map_eq_some_iff.mp h
    rw [hv', Except.ok.inj heq]
  rcases h.delivered with hdel | ⟨error, hdel⟩
  · rw [hdel] at hi
    exact hmap hi
  · rw [hdel, List.getElem?_append] at hi
    split at hi
    · exact hmap hi
    · rw [List.getElem?_singleton] at hi
      split at hi <;> cases hi

theorem values_agree (hW : W.ReplayedIn d ok) (hs : Reachable d ok s) {t u : Nat} {r r' : Run Val}
    (hr : s.run? t = some r) (hr' : s.run? u = some r') (hw : r.workflowId = W.workflowId)
    (hw' : r'.workflowId = W.workflowId) {i : Nat} {v v' : Val}
    (hi : r.delivered[i]? = some (.ok v)) (hi' : r'.delivered[i]? = some (.ok v')) : v = v' := by
  obtain ⟨done, hdone, hpre⟩ := values_ok hW hs hr hw
  obtain ⟨done', hdone', hpre'⟩ := values_ok hW hs hr' hw'
  exact hdone.agree (Replayable.unambiguous (hW.functional s hs)) hdone' hpre hpre'
    ((straight_ok hW.admits hs hr hw).getElem?_values hi)
    ((straight_ok hW.admits hs hr' hw').getElem?_values hi')

/-- **Every run that gets past a step is given the same value there.** -/
theorem step_values_agree {w : String} {P : Program Val} (hd : d.HandlerFree)
    (hs : Reachable d (Sys.Regular d w P) s)
    (hP : s.program? (d.workflowRegistry 0) w = some P) {t u : Nat} {r r' : Run Val}
    (hr : s.run? t = some r) (hr' : s.run? u = some r') (hw : r.workflowId = w)
    (hw' : r'.workflowId = w) {i : Nat} {v v' : Val} (hi : r.delivered[i]? = some (.ok v))
    (hi' : r'.delivered[i]? = some (.ok v')) : v = v' := by
  obtain ⟨ok', hW, hs'⟩ := hd.replayed hs hP
  exact values_agree hW hs' hr hr' hw hw' hi hi'

/-- **The body of a step with a COMPLETED event is never invoked again.** -/
theorem body_not_repeated {w : String} {P : Program Val} (hd : d.HandlerFree)
    (hs : Reachable d (Sys.Regular d w P) s)
    (hP : s.program? (d.workflowRegistry 0) w = some P) {t : Nat} {r : Run Val} {tx : Option Tx}
    (hth : s.threads[t]? = some ⟨.run r, tx, true⟩) (hw : r.workflowId = w) {w' : String} {i : Nat}
    {f : ActivityFunction Val} {args : JsonSafe}
    {k : (Call.runActivityBody w' i f args : Call Val).Reply → Run Val}
    (hn : r.next? = some ⟨.runActivityBody w' i f args, k⟩) :
    ∀ e ∈ s.history w, e.toEntry.isAt i .completed = false := by
  obtain ⟨ok', hW, hs'⟩ := hd.replayed hs hP
  exact body_ok hW hs' hth hw hn

/-- the function has not ended before a value of the log -/
theorem Sys.Passed.not_isEnd {us ws : List Val} {v : Val} (h : s.Passed W (us ++ v :: ws)) :
    (W.program.next us).isEnd = false := by
  obtain ⟨done, hdone, -⟩ := h
  obtain ⟨_, b, _, -, hb, -⟩ := hdone.split rfl
  have hb : Leaves W _ us b v := hb
  cases hb with
  | wait hP hv =>
    cases hnext : W.program.next us with
    | ret result =>
      rw [hnext] at hP
      cases hP
    | raise error =>
      rw [hnext] at hP
      cases hP
    | _ => rfl
  | _ hP =>
    rw [hP]
    rfl

theorem Sys.Passed.of_ret (hR : W.Functional (s.reads W.rt W.workflowId)) {vs us : List Val}
    (hvs : s.Passed W vs) (hus : s.Passed W us) {result : Except PyExc Json}
    (hnext : W.program.next vs = .ret result) : us <+: vs := by
  obtain ⟨done, hdone, hpre⟩ := hvs
  have hpassed := hus
  obtain ⟨done', hdone', hpre'⟩ := hus
  rcases hdone'.prefix_or (Replayable.unambiguous hR) hdone hpre' hpre with h | ⟨ws, rfl⟩
  · exact h
  · cases ws with
    | nil => rw [List.append_nil]
    | cons v ws =>
      have hend := hpassed.not_isEnd
      rw [hnext] at hend
      cases hend

/-- **A recorded result is what an uninterrupted pass over the values of the steps computes.** -/
theorem result_of_pass {w : String} {P : Program Val} (hd : d.HandlerFree)
    (hs : Reachable d (Sys.Regular d w P) s)
    (hP : s.program? (d.workflowRegistry 0) w = some P) {e : EventRecord} (he : e ∈ s.history w)
    (hty : e.eventType = .workflowCompleted) :
    ∃ vs result, P.next vs = .ret (.ok result) ∧ e.payload = .obj [("result", result)]
      ∧ ∀ t r, s.run? t = some r → r.workflowId = w → r.values <+: vs := by
  obtain ⟨ok', hW, hs'⟩ := hd.replayed hs hP
  obtain ⟨vs, result, hpassed, hnext, hpayload⟩ := completed_ok hW hs' he hty
  exact ⟨vs, result, hnext, hpayload, fun t r hr hw =>
    hpassed.of_ret (hW.functional s hs') (values_ok hW hs' hr hw) hnext⟩

/-- code without handlers, by what it does after the values of its awaits -/
def Program.ofValues (next : List Val → Action Val) : Program Val := fun delivered =>
  match delivered.getLast? with
  | some (.error error) => .raise error
  | _ => next (delivered.filterMap Except.toOption)

theorem Program.handlerFree_ofValues (next : List Val → Action Val) :
    (Program.ofValues next).HandlerFree := by
  intro delivered error
  rw [Program.ofValues, List.getLast?_concat]

theorem Program.next_ofValues (next : List Val → Action Val) (vs : List Val) :
    (Program.ofValues next).next vs = next vs := by
  rw [Program.next, Program.ofValues, values_map_ok]
  split
  · rename_i error h
    obtain ⟨v, -, heq⟩ := List.mem_map.mp (List.mem_of_getLast? h)
    cases heq
  · rfl

end

/-! ## a card is charged

The body fails once, then returns 5; the workflow sleeps and completes in a third run.
-/

def chargeCard : ActivityFunction Json where
  qualname := "charge_card"
  maxRetries := 1
  backoffSeconds := 0
  fromJsonSafe := .ok

def chargesCardNext : List Json → Action Json
  | [] => .activity chargeCard (.ok (.json .null))
  | [_] => .sleep 0 0 0 0
  | amount :: _ => .ret (.ok amount)

def chargesCard : Deployment Json := .plain fun _ => some fun _ => .ofValues chargesCardNext

def Sys.bodyRestored (s : Sys Json) : Label Json → Bool
  | .body t (.ok (.int n)) => (s.run? t).all fun r => match r.next? with
    | some ⟨.runActivityBody _ _ f _, _⟩ => match f.fromJsonSafe (.int n) with
      | .ok (.int m) => m == n
      | _ => false
    | _ => true
  | .body _ (.ok _) => false
  | _ => true

def firstAttempt : List (Label Json) :=
  [.request (.startWorkflow .w "n" (.obj []))] ++ transact 0 3
    ++ [.claim "A" (newRow "w" "n" none 0)] ++ transact 1 2
    ++ [.read 1, .advance 1] ++ transact 1 2
    ++ [.read 1, .read 1, .body 1 (.error (.other "TimeoutError" "")), .read 1] ++ transact 1 2
    ++ [.read 1, .read 1] ++ transact 1 1 ++ [.advance 1, .advance 1]

def secondAttempt : List (Label Json) :=
  [.claim "B" (newRow "w" "n" none 0)] ++ transact 2 2 ++ [.read 2, .advance 2, .read 2]

def chargedOnce : List (Label Json) :=
  [.body 2 (.ok (.int 5)), .read 2] ++ transact 2 2 ++ [.read 2, .advance 2, .read 2] ++ transact 2 2
    ++ [.read 2] ++ transact 2 1 ++ [.advance 2, .advance 2]

def thirdRun : List (Label Json) :=
  [.claim "A" (newRow "w" "n" none 0)] ++ transact 3 2
    ++ [.read 3, .advance 3, .advance 3, .read 3, .advance 3] ++ transact 3 4 ++ [.advance 3]

theorem chargesCard_handlerFree : chargesCard.HandlerFree where
  one_version _ := rfl
  handler_free _ _ _ h := by
    obtain rfl := Option.some.inj h
    exact Program.handlerFree_ofValues _

theorem plain_of_bodyRestored {s : Sys Json} {t : Nat} {v : Json}
    (h : s.bodyRestored (.body t (.ok v)) = true) {r : Run Json} (hr : s.run? t = some r)
    {w : String} {i : Nat} {f : ActivityFunction Json} {args : JsonSafe}
    {k : (Call.runActivityBody w i f args : Call Json).Reply → Run Json}
    (hn : r.next? = some ⟨.runActivityBody w i f args, k⟩) : f.Plain chargesCard.toRuntime v := by
  cases v with
  | int n =>
    simp only [Sys.bodyRestored, hr, Option.all_some, hn] at h
    intro result hresult
    obtain rfl := Except.ok.inj hresult
    split at h
    · rename_i m hm
      rw [hm, beq_iff_eq.mp h]
    · cases h
  | _ => cases h

theorem chargesCard_waits (vs : List Json) :
    ((Program.ofValues chargesCardNext).next vs).wait? = none := by
  rw [Program.next_ofValues]
  match vs with
  | [] => rfl
  | [_] => rfl
  | _ :: _ :: _ => rfl

theorem chargesCard_regular {s : Sys Json} {l : Label Json}
    (h : (s.leasesLive && l.plainSignal && s.bodyRestored l) = true) :
    s.Regular chargesCard "w" (.ofValues chargesCardNext) l := by
  simp only [Bool.and_eq_true] at h
  obtain ⟨⟨hlive, hplain⟩, hbody⟩ := h
  refine ⟨hlive, hplain, fun vs signalType hnext => ?_, ?_⟩
  · have hwait := chargesCard_waits vs
    rw [hnext] at hwait
    cases hwait
  · rintro t r w i f args k v rfl hr - hn
    exact plain_of_bodyRestored hbody hr hn

theorem chargesCard_program {s : Sys Json}
    (h : ((s.row? "w").isSome && (s.input? "w").isSome) = true) :
    s.program? (chargesCard.workflowRegistry 0) "w" = some (.ofValues chargesCardNext) := by
  obtain ⟨hrow, hinput⟩ := Bool.and_eq_true_iff.mp h
  obtain ⟨row, hrow⟩ := Option.isSome_iff_exists.mp hrow
  obtain ⟨input, hinput⟩ := Option.isSome_iff_exists.mp hinput
  rw [Sys.program?, hrow, hinput]
  rfl

theorem chargesCard_reached {P : Sys Json → Bool} (ls : List (Label Json))
    (h : (follow (Sys.step chargesCard)
      (fun s l => s.leasesLive && l.plainSignal && s.bodyRestored l) Sys.initial ls).any
        (fun s => ((s.row? "w").isSome && (s.input? "w").isSome) && P s) = true) :
    ∃ s, Reachable chargesCard (Sys.Regular chargesCard "w" (.ofValues chargesCardNext)) s
      ∧ s.program? (chargesCard.workflowRegistry 0) "w" = some (.ofValues chargesCardNext)
      ∧ P s = true := by
  obtain ⟨s, hs, h⟩ := Reach.exists_of_follow _ h
  obtain ⟨hprogram, hP⟩ := Bool.and_eq_true_iff.mp h
  exact ⟨s, hs.mono fun _ _ => chargesCard_regular, chargesCard_program hprogram, hP⟩

theorem log_well_formed_charged : ∃ s : Sys Json,
    ((s.history "w").any fun e => e.toEntry.isAt 0 .completed) = true
      ∧ StepLog 0 (((s.history "w").map EventRecord.toEntry).filter fun e => e.stepIndex == 0) := by
  obtain ⟨s, hs, hP, h⟩ := chargesCard_reached
    (P := fun s => (s.history "w").any fun e => e.toEntry.isAt 0 .completed)
    (firstAttempt ++ secondAttempt ++ chargedOnce) (by decide +kernel)
  exact ⟨s, h, (log_well_formed chargesCard_handlerFree hs hP).1 0⟩

/-- the run of thread `t` has been given the value of step 0 of `w` -/
def Sys.givesFirst (s : Sys Json) (t : Nat) : Bool :=
  (s.run? t).any fun r => r.workflowId == "w" && match r.delivered[0]? with
    | some (.ok _) => true
    | _ => false

theorem Sys.givesFirst_spec {s : Sys Json} {t : Nat} (h : s.givesFirst t = true) :
    ∃ r v, s.run? t = some r ∧ r.workflowId = "w" ∧ r.delivered[0]? = some (.ok v) := by
  obtain ⟨r, hr, h⟩ := (Option.any_eq_true _ _).mp h
  obtain ⟨hw, h⟩ := Bool.and_eq_true_iff.mp h
  split at h
  · rename_i v hv
    exact ⟨r, v, hr, beq_iff_eq.mp hw, hv⟩
  · cases h

theorem step_values_agree_charged : ∃ (s : Sys Json) (r r' : Run Json) (v v' : Json),
    s.run? 2 = some r ∧ s.run? 3 = some r' ∧ r.delivered[0]? = some (.ok v)
      ∧ r'.delivered[0]? = some (.ok v') ∧ v = v' := by
  obtain ⟨s, hs, hP, h⟩ := chargesCard_reached (P := fun s => s.givesFirst 2 && s.givesFirst 3)
    (firstAttempt ++ secondAttempt ++ chargedOnce ++ thirdRun) (by decide +kernel)
  obtain ⟨h₂, h₃⟩ := Bool.and_eq_true_iff.mp h
  obtain ⟨r, v, hr, hw, hv⟩ := Sys.givesFirst_spec h₂
  obtain ⟨r', v', hr', hw', hv'⟩ := Sys.givesFirst_spec h₃
  exact ⟨s, r, r', v, v', hr, hr', hv, hv',
    step_values_agree chargesCard_handlerFree hs hP hr hr' hw hw' hv hv'⟩

/-- the living run of thread `t` invokes the body of step 0 of `w` -/
def Sys.invokesFirst (s : Sys Json) (t : Nat) : Bool :=
  match s.thread? t with
  | some ⟨.run r, _, _⟩ => r.workflowId == "w" && match r.next? with
    | some ⟨.runActivityBody _ i _ _, _⟩ => i == 0
    | _ => false
  | _ => false

theorem body_not_repeated_charged : ∃ (s : Sys Json) (r : Run Json),
    s.run? 2 = some r ∧ ((s.history "w").any fun e => e.toEntry.isAt 0 .failed) = true
      ∧ ∀ e ∈ s.history "w", e.toEntry.isAt 0 .completed = false := by
  obtain ⟨s, hs, hP, h⟩ := chargesCard_reached
    (P := fun s => ((s.history "w").any fun e => e.toEntry.isAt 0 .failed) && s.invokesFirst 2)
    (firstAttempt ++ secondAttempt) (by decide +kernel)
  obtain ⟨hfailed, h⟩ := Bool.and_eq_true_iff.mp h
  unfold Sys.invokesFirst at h
  split at h
  · rename_i r tx alive hth
    obtain ⟨hth, rfl⟩ := Sys.thread?_eq_some hth
    obtain ⟨hw, h⟩ := Bool.and_eq_true_iff.mp h
    split at h
    · rename_i w i f args k hn
      obtain rfl := beq_iff_eq.mp h
      exact ⟨s, r, Sys.run?_eq hth, hfailed,
        body_not_repeated chargesCard_handlerFree hs hP hth (beq_iff_eq.mp hw) hn⟩
    · cases h
  · cases h

theorem result_of_pass_charged : ∃ (s : Sys Json) (e : EventRecord) (vs : List Json) (result : Json),
    e ∈ s.history "w" ∧ e.eventType = .workflowCompleted ∧ chargesCardNext vs = .ret (.ok result)
      ∧ e.payload = .obj [("result", result)] := by
  obtain ⟨s, hs, hP, h⟩ := chargesCard_reached
    (P := fun s => (s.history "w").any fun e => e.eventType == .workflowCompleted)
    (firstAttempt ++ secondAttempt ++ chargedOnce ++ thirdRun) (by decide +kernel)
  obtain ⟨e, he, hty⟩ := List.any_eq_true.mp h
  obtain ⟨vs, result, hnext, hpayload, -⟩ :=
    result_of_pass chargesCard_handlerFree hs hP he (beq_iff_eq.mp hty)
  rw [Program.next_ofValues] at hnext
  exact ⟨s, e, vs, result, he, beq_iff_eq.mp hty, hnext, hpayload⟩

end TemporalLight
