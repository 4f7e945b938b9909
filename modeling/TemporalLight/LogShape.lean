import TemporalLight.Durability
import TemporalLight.Starts

/-!
# The shape of a log

Nothing in the schema keeps a step from being written twice.  What keeps the log in shape is that
one run at a time writes to it, and that every run that replays does what the runs before it did;
and the latter needs that each wait is answered as it was before.

* `log_shape`           a log begins with STARTED, each step has the events of one call, and no later
                        step comes before the end of an earlier one
* `log_out_of_shape`    two signals that are committed in the other order let a replay go another way
-/

namespace TemporalLight
open Runs

section
variable {Val : Type} {d : Deployment Val} {s : Sys Val} {w : String} {P : Program Val}

/-- no lease of a live run has lapsed, no answer that the program waits for is committed before one
that has been read, and the results of the bodies survive their way through JSON -/
structure Sys.InOrder (d : Deployment Val) (w : String) (P : Program Val) (s : Sys Val)
    (l : Label Val) : Prop where
  live : s.leasesLive = true
  answers : ∀ vs wait, (P.next vs).wait? = some wait → s.answersInOrder w wait l = true
  bodies : ∀ t r w' i f args k v, l = .body t (.ok v) → s.run? t = some r → r.workflowId = w →
    r.next? = some ⟨.runActivityBody w' i f args, k⟩ → f.Plain d.toRuntime v

/-- the events of step `i` of `w` -/
def Sys.eventsAt (s : Sys Val) (w : String) (i : Nat) : List Entry :=
  ((s.history w).map EventRecord.toEntry).filter fun e => e.stepIndex == (i : Int)

/-- the event that a step of its kind ends with -/
def Entry.endsStep (e : Entry) : Bool :=
  match e.eventType with
  | .completed => true
  | .sleep => true
  | .childStarted => true
  | _ => false

theorem inOrder_replayed (hP : P.HandlerFree) (hs : Reachable d (Sys.InOrder d w P) s)
    (hprogram : ∀ t, s.program? (d.workflowRegistry t) w = some P) :
    ∃ ok', (d.replayable w hP).ReplayedIn d ok' ∧ Reachable d ok' s := by
  refine exists_replayedIn rfl
    (fun _ _ _ hs h hstep => keepsLease_of_leasesLive hs hstep h.live w) (fun _ _ h => h.bodies)
    (fun s hs vs wait o o' hwait h h' => ?_) hs hprogram
  exact reads_functional (fun _ _ _ hl => hl.answers vs wait hwait) hs h h'

theorem stepIndex_of_endsStep {ok : Sys Val → Label Val → Prop} (hs : Reachable d ok s)
    {e : EventRecord} (he : e ∈ s.events) (h : e.toEntry.endsStep = true) : 0 ≤ e.stepIndex := by
  have hentry := entry_ok hs he
  unfold Entry.Ok at hentry
  unfold Entry.endsStep at h
  cases hty : e.eventType with
  | completed =>
    rw [hty] at hentry
    obtain ⟨i, hi⟩ := hentry
    exact hi ▸ Int.natCast_nonneg i
  | sleep =>
    rw [hty] at hentry
    obtain ⟨i, hi⟩ := hentry
    exact hi ▸ Int.natCast_nonneg i
  | childStarted =>
    rw [hty] at hentry
    obtain ⟨i, hi, -⟩ := hentry
    exact hi ▸ Int.natCast_nonneg i
  | _ =>
    rw [hty] at h
    cases h

/-- steps that lie in the log in the order of their indices -/
theorem endsStep_ordered {ok : Sys Val → Label Val → Prop} (hs : Reachable d ok s)
    (hsorted : (stepEntries (s.history w)).Pairwise fun a b => a.stepIndex ≤ b.stepIndex) :
    (s.history w).Pairwise fun a b => b.toEntry.endsStep = true → a.stepIndex ≤ b.stepIndex := by
  rw [stepEntries_eq, List.pairwise_map, List.pairwise_filter] at hsorted
  refine hsorted.imp_of_mem fun {a b} _ hb hab hends => ?_
  have hb₀ := stepIndex_of_endsStep hs (Sys.mem_history.mp hb).1 hends
  by_cases ha : 0 ≤ a.stepIndex
  · exact hab (by simpa [Entry.isStep] using ha) (by simpa [Entry.isStep] using hb₀)
  · omega

/-- **A log is in shape**: it begins with its one STARTED event, the events of each step are those
of one call in their order, and no event of a later step comes before the one that ends a step. -/
theorem log_shape (hP : P.HandlerFree) (hs : Reachable d (Sys.InOrder d w P) s)
    (hprogram : ∀ t, s.program? (d.workflowRegistry t) w = some P) :
    (∃ e rest, s.history w = e :: rest ∧ e.eventType = .started
        ∧ ∀ e' ∈ rest, e'.eventType ≠ .started)
      ∧ (∀ i, StepLog i (s.eventsAt w i))
      ∧ (s.history w).Pairwise fun a b => b.toEntry.endsStep = true → a.stepIndex ≤ b.stepIndex := by
  obtain ⟨ok', hW, hs'⟩ := inOrder_replayed hP hs hprogram
  refine ⟨?_, stepLog_ok hW hs', endsStep_ordered hs (follow_ok hW hs').log.sorted⟩
  obtain ⟨row, hrow, -⟩ := Option.bind_eq_some_iff.mp (hprogram 0)
  obtain ⟨e₀, he₀, -⟩ := started_of_row hs (Option.isSome_iff_exists.mpr ⟨row, hrow⟩)
  obtain ⟨e, rest, hlog⟩ := List.exists_cons_of_ne_nil (List.ne_nil_of_mem he₀)
  exact ⟨e, rest, hlog, started_first hs hlog⟩

end

/-- the card is charged in the second attempt, after one failure -/
theorem log_shape_charged : ∃ (s : Sys Json) (e : EventRecord) (rest : List EventRecord),
    s.history "w" = e :: rest ∧ e.eventType = .started
      ∧ ((s.history "w").any fun e => e.toEntry.isAt 0 .completed) = true
      ∧ StepLog 0 (s.eventsAt "w" 0)
      ∧ (s.history "w").Pairwise fun a b =>
        b.toEntry.endsStep = true → a.stepIndex ≤ b.stepIndex := by
  obtain ⟨s, hs, hP, h⟩ := chargesCard_reached
    (P := fun s => (s.history "w").any fun e => e.toEntry.isAt 0 .completed)
    (firstAttempt ++ secondAttempt ++ chargedOnce ++ thirdRun) (by decide +kernel)
  have horder : Reachable chargesCard (Sys.InOrder chargesCard "w" (.ofValues chargesCardNext)) s := by
    refine hs.mono fun s l h => ⟨h.live, fun vs wait hwait => ?_, h.bodies⟩
    rw [chargesCard_waits] at hwait
    cases hwait
  obtain ⟨⟨e, rest, hlog, hty, -⟩, hsteps, hordered⟩ :=
    log_shape (Program.handlerFree_ofValues _) horder fun _ => hP
  exact ⟨s, e, rest, hlog, hty, h, hsteps 0, hordered⟩

/-! ## a step that is written twice

The workflow sleeps after the signal 2, and charges a card after any other.
-/

def branchesNext : List Json → Action Json
  | [] => .waitForSignal "go"
  | [.int 2] => .sleep 0 0 0 0
  | [_] => .activity chargeCard (.ok (.json .null))
  | _ => .ret (.ok .null)

def branches : Deployment Json := .plain fun _ => some fun _ => .ofValues branchesNext

/-- of two signals the second one is committed, and the run that reads it goes to sleep -/
def sleepsAfterSecond : List (Label Json) :=
  readsSecond ++ [.read 1] ++ transact 1 2 ++ [.read 1] ++ transact 1 1 ++ [.advance 1, .advance 1]

/-- the first signal is committed, and the next run is about to charge the card -/
def chargesAfterFirst : List (Label Json) :=
  [.execute 2, .execute 2, .commit 2, .claim "B" (newRow "w" "n" none 0)] ++ transact 4 2
    ++ [.read 4, .advance 4, .advance 4] ++ transact 4 2

/-- a SLEEP event is alone at its step -/
theorem StepLog.sleep_alone {i : Nat} {b : List Entry} (h : StepLog i b) {e : Entry} (he : e ∈ b)
    (hat : e.isAt i .sleep = true) : b = [e] := by
  have hty := (Entry.isAt_iff.mp hat).2
  have hnot {a : Entry} {ty : EventType} (ha : a.isAt i ty = true) (hne : ty ≠ .sleep) : e ≠ a := by
    rintro rfl
    exact hne ((Entry.isAt_iff.mp ha).2.symm.trans hty)
  cases h with
  | none => cases he
  | attempts hsched hfails =>
    rcases List.mem_cons.mp he with heq | he
    · exact (hnot hsched (by decide) heq).elim
    · exact (hnot (hfails.isAt e he) (by decide) rfl).elim
  | completed hsched hfails he' htotal =>
    rcases List.mem_cons.mp he with heq | he
    · exact (hnot hsched (by decide) heq).elim
    · rcases List.mem_append.mp he with he | he
      · exact (hnot (hfails.isAt e he) (by decide) rfl).elim
      · exact (hnot he' (by decide) (List.mem_singleton.mp he)).elim
  | sleep he' => rw [List.mem_singleton.mp he]
  | childStarted he' => exact (hnot he' (by decide) (List.mem_singleton.mp he)).elim

/-- A run goes to sleep after the second of two signals, which was committed first; the next one
finds the first signal, and schedules an activity at the step of the sleep.  No lease has lapsed, and
nobody has crashed. -/
theorem log_out_of_shape : ∃ s : Sys Json, Reachable branches (fun s _ => s.leasesLive) s
    ∧ (∀ t, s.program? (branches.workflowRegistry t) "w" = some (.ofValues branchesNext))
    ∧ (Program.ofValues branchesNext).HandlerFree
    ∧ ¬ StepLog 1 (s.eventsAt "w" 1) := by
  have hrun : (follow (Sys.step branches) (fun s _ => s.leasesLive) Sys.initial
      (sleepsAfterSecond ++ chargesAfterFirst)).any (fun s =>
        (s.row? "w").isSome && (s.input? "w").isSome
          && (s.eventsAt "w" 1).any (Entry.isAt 1 .sleep) && (s.eventsAt "w" 1).length == 2) = true := by
    decide +kernel
  obtain ⟨s, hs, h⟩ := Reach.exists_of_follow _ hrun
  simp only [Bool.and_eq_true, beq_iff_eq] at h
  obtain ⟨⟨⟨hrow, hinput⟩, hsleep⟩, hlength⟩ := h
  refine ⟨s, hs, fun t => ?_, Program.handlerFree_ofValues _, fun hlog => ?_⟩
  · obtain ⟨row, hrow⟩ := Option.isSome_iff_exists.mp hrow
    obtain ⟨input, hinput⟩ := Option.isSome_iff_exists.mp hinput
    rw [Sys.program?, hrow, hinput]
    rfl
  · obtain ⟨e, he, hat⟩ := List.any_eq_true.mp hsleep
    rw [hlog.sleep_alone he hat] at hlength
    cases hlength

end TemporalLight
