import TemporalLight.Durability
import TemporalLight.Spawns

/-!
# Runs one after another

A workflow whose runs are executed one at a time needs no lease: whoever claims it, and however the
run before has ended (suspended, completed, or killed between two statements), a run takes up what
is in the log.  So all its runs together compute what one uninterrupted pass would compute.

* `Program.pass`   the function, given the values of its steps one after another
* `passed_pass`    the values in the log are those of such a pass
* `replay_agrees`  the runs agree on the values, no body is invoked again once its step is completed,
                   and a recorded result is that of one pass over the values
-/

namespace TemporalLight
open Runs

/-- what the function returns when its awaits are given these values, and no more of them -/
def Program.pass {Val : Type} (P : Program Val) (given : List Val) :
    List Val → Option (Except PyExc Json)
  | [] => (P.next given).returned?
  | v :: vs => if (P.next given).isEnd then none else P.pass (given ++ [v]) vs

section
variable {Val : Type} {d : Deployment Val} {s s' : Sys Val} {ok : Sys Val → Label Val → Prop}
  {W : Replayable Val}

/-- **The values in the log are those of a pass.** -/
theorem passed_pass {vs : List Val} (h : s.Passed W vs) {result : Except PyExc Json}
    (hnext : W.program.next vs = .ret result) : W.program.pass [] vs = some result := by
  suffices ∀ ws us, us ++ ws = vs → W.program.pass us ws = some result from this vs [] rfl
  intro ws
  induction ws with
  | nil =>
    rintro us hus
    rw [List.append_nil] at hus
    rw [Program.pass, hus, hnext]
    rfl
  | cons v ws ih =>
    rintro us rfl
    rw [Program.pass, h.not_isEnd, if_neg Bool.false_ne_true]
    exact ih (us ++ [v]) (List.append_assoc us [v] ws)

/-! ## one run at a time -/

/-- a run of `w` is only begun when every run of it before has crashed or ended; no signal of the
reserved type is sent, and the results of the bodies survive their way through JSON -/
structure Sys.OneByOne (d : Deployment Val) (w : String) (s : Sys Val) (l : Label Val) : Prop where
  alone : s.claims w l = true → ∀ t r, s.run? t = some r → r.workflowId = w → s.isRunning t = false
  plain : l.plainSignal = true
  bodies : ∀ t r w' i f args k v, l = .body t (.ok v) → s.run? t = some r → r.workflowId = w →
    r.next? = some ⟨.runActivityBody w' i f args, k⟩ → f.Plain d.toRuntime v

theorem keepsLease_of_alone (hs : Reachable d ok s) {w : String} {l : Label Val}
    (h : s.claims w l = true → ∀ t r, s.run? t = some r → r.workflowId = w →
      s.isRunning t = false) : s.keepsLease w l := by
  intro t hlease hrunning
  obtain ⟨-, -, -, -, -, -, r, tx, alive, hth, hw, -⟩ := (lease_ok hs w).1 t hlease
  rw [Bool.eq_false_iff]
  intro hclaims
  rw [h hclaims t r (Sys.run?_eq hth) hw] at hrunning
  cases hrunning

theorem oneByOne_replayed {w : String} {P : Program Val} (hP : P.HandlerFree)
    (hwaits : ∀ vs signalType, P.next vs ≠ .waitForSignal signalType)
    (hs : Reachable d (Sys.OneByOne d w) s)
    (hprogram : ∀ t, s.program? (d.workflowRegistry t) w = some P) :
    ∃ ok', (d.replayable w hP).ReplayedIn d ok' ∧ Reachable d ok' s :=
  exists_replayedIn rfl (fun _ _ _ hs h _ => keepsLease_of_alone hs h.alone) (fun _ _ h => h.bodies)
    (fun _ hs => functional_of_plain hP (fun _ _ h => h.plain)
      (fun vs signalType hnext => absurd hnext (hwaits vs signalType)) hs) hs hprogram

/-- what the run that has completed a workflow was given -/
theorem completed_pass (hW : W.ReplayedIn d ok) (hs : Reachable d ok s)
    (hprogram : ∀ t, s.program? (d.workflowRegistry t) W.workflowId = some W.program)
    {e : EventRecord} (he : e ∈ s.history W.workflowId) (hty : e.eventType = .workflowCompleted) :
    ∃ t r result, s.run? t = some r ∧ r.workflowId = W.workflowId
      ∧ r.delivered = r.values.map .ok ∧ W.program.pass [] r.values = some (.ok result)
      ∧ e.payload = .obj [("result", result)] := by
  obtain ⟨t, r, result, hr, hw, hret, hprogram', hpayload⟩ := completed_by hs he hty
  obtain hP : W.program = r.program := Option.some.inj ((hprogram t).symm.trans hprogram')
  have hnext := Run.ret_of_returned hret
  rw [← hP] at hnext
  -- the function has returned, so no await has raised
  have hdelivered : r.delivered = r.values.map .ok := by
    refine (straight_ok hW.admits hs hr hw).delivered.resolve_right ?_
    rintro ⟨error, herror⟩
    rw [herror, W.handler_free] at hnext
    cases hnext
  refine ⟨t, r, result, hr, hw, hdelivered, passed_pass (values_ok hW hs hr hw) ?_, hpayload⟩
  rw [Program.next, ← hdelivered, hnext]

/-- **Replay equals uninterrupted execution.**  Where the runs of a workflow without handlers are
executed one at a time, whatever the others do and wherever the runs are cut off, they are given the
same values, no body is invoked whose step has a COMPLETED event, and a recorded result is that of
one pass over the values of the run that has recorded it. -/
theorem replay_agrees {w : String} {P : Program Val} (hP : P.HandlerFree)
    (hwaits : ∀ vs signalType, P.next vs ≠ .waitForSignal signalType)
    (hs : Reachable d (Sys.OneByOne d w) s)
    (hprogram : ∀ t, s.program? (d.workflowRegistry t) w = some P) :
    (∀ (t u : Nat) (r r' : Run Val), s.run? t = some r → s.run? u = some r' → r.workflowId = w →
        r'.workflowId = w → ∀ (i : Nat) (v v' : Val), r.delivered[i]? = some (.ok v) →
          r'.delivered[i]? = some (.ok v') → v = v')
      ∧ (∀ (t : Nat) (r : Run Val) tx, s.threads[t]? = some ⟨.run r, tx, true⟩ → r.workflowId = w →
        ∀ w' i f args k, r.next? = some ⟨.runActivityBody w' i f args, k⟩ →
          ∀ e ∈ s.history w, e.toEntry.isAt i .completed = false)
      ∧ ∀ e ∈ s.history w, e.eventType = .workflowCompleted →
        ∃ t r result, s.run? t = some r ∧ r.workflowId = w ∧ r.delivered = r.values.map .ok
          ∧ P.pass [] r.values = some (.ok result) ∧ e.payload = .obj [("result", result)] := by
  obtain ⟨ok', hW, hs'⟩ := oneByOne_replayed hP hwaits hs hprogram
  refine ⟨fun t u r r' hr hr' hw hw' i v v' => ?_, fun t r tx hth hw w' i f args k hn => ?_,
    fun e he hty => ?_⟩
  · exact values_agree hW hs' hr hr' hw hw'
  · exact body_ok hW hs' hth hw hn
  · exact completed_pass hW hs' hprogram he hty

end

/-! ## a card is charged, without a lease

The body fails in the first run and returns in the second one, the third run is killed while it
replays, and the fourth one claims the workflow after that and completes it.
-/

def killedAtReplay : List (Label Json) :=
  [.claim "A" (newRow "w" "n" none 0)] ++ transact 3 2 ++ [.read 3, .advance 3, .advance 3, .crash 3,
    .tick 31000000]

def fourthRun : List (Label Json) :=
  [.claim "B" { newRow "w" "n" none 0 with lockedBy := some "A", lockedUntil := some 30000000 }]
    ++ transact 4 2 ++ [.read 4, .advance 4, .advance 4, .read 4, .advance 4] ++ transact 4 4
    ++ [.advance 4]

/-- nothing else is running when a run of `w` begins -/
def Sys.beginsAlone (s : Sys Json) (w : String) (l : Label Json) : Bool :=
  !s.claims w l || (List.range s.threads.length).all fun t => !s.isRunning t

theorem chargesCard_oneByOne {s : Sys Json} {l : Label Json}
    (h : (s.beginsAlone "w" l && l.plainSignal && s.bodyRestored l) = true) :
    s.OneByOne chargesCard "w" l := by
  simp only [Bool.and_eq_true] at h
  obtain ⟨⟨halone, hplain⟩, hbody⟩ := h
  refine ⟨fun hclaims t r hr _ => ?_, hplain, ?_⟩
  · rw [Sys.beginsAlone, hclaims, Bool.not_true, Bool.false_or, List.all_eq_true] at halone
    obtain ⟨tx, alive, hth⟩ := Sys.thread_of_run? hr
    have hlt := (List.getElem?_eq_some_iff.mp hth).1
    exact Bool.not_eq_eq_eq_not.mp (halone t (List.mem_range.mpr hlt))
  · rintro t r w i f args k v rfl hr - hn
    exact plain_of_bodyRestored hbody hr hn

theorem replay_agrees_charged : ∃ (s : Sys Json) (r r' : Run Json) (v v' : Json) (e : EventRecord)
    (vs : List Json) (result : Json), s.run? 2 = some r ∧ s.run? 4 = some r'
      ∧ r.delivered[0]? = some (.ok v) ∧ r'.delivered[0]? = some (.ok v') ∧ v = v'
      ∧ e ∈ s.history "w" ∧ e.eventType = .workflowCompleted
      ∧ (Program.ofValues chargesCardNext).pass [] vs = some (.ok result)
      ∧ e.payload = .obj [("result", result)] := by
  have hrun : (follow (Sys.step chargesCard)
      (fun s l => s.beginsAlone "w" l && l.plainSignal && s.bodyRestored l) Sys.initial
      (firstAttempt ++ secondAttempt ++ chargedOnce ++ killedAtReplay ++ fourthRun)).any (fun s =>
        ((s.row? "w").isSome && (s.input? "w").isSome) && (s.givesFirst 2 && s.givesFirst 4
          && (s.history "w").any fun e => e.eventType == .workflowCompleted)) = true := by
    decide +kernel
  obtain ⟨s, hs, h⟩ := Reach.exists_of_follow _ hrun
  simp only [Bool.and_eq_true] at h
  obtain ⟨hprogram, ⟨h₂, h₄⟩, hcompleted⟩ := h
  obtain ⟨r, v, hr, hw, hv⟩ := Sys.givesFirst_spec h₂
  obtain ⟨r', v', hr', hw', hv'⟩ := Sys.givesFirst_spec h₄
  obtain ⟨e, he, hty⟩ := List.any_eq_true.mp hcompleted
  have hwaits (vs : List Json) (signalType : String) :
      (Program.ofValues chargesCardNext).next vs ≠ .waitForSignal signalType := by
    intro hnext
    have hwait := chargesCard_waits vs
    rw [hnext] at hwait
    cases hwait
  obtain ⟨hagree, -, hresult⟩ := replay_agrees (Program.handlerFree_ofValues _) hwaits
    (hs.mono fun _ _ => chargesCard_oneByOne)
    fun _ => chargesCard_program (Bool.and_eq_true_iff.mpr hprogram)
  obtain ⟨_, r₁, result, -, -, -, hpass, hpayload⟩ := hresult e he (beq_iff_eq.mp hty)
  exact ⟨s, r, r', v, v', e, r₁.values, result, hr, hr', hv, hv',
    hagree 2 4 r r' hr hr' hw hw' 0 v v' hv hv', he, beq_iff_eq.mp hty, hpass, hpayload⟩

end TemporalLight
