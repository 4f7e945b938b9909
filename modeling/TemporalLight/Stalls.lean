import Mathlib.Order.Bounds.Basic
import Mathlib.Data.Set.Finite.Lattice
import TemporalLight.Outcome
import TemporalLight.Wakeup

/-!
# What a forest that stands still waits for

A workflow that is WAITING waits for something, and nobody has answered it; a child that has ended
has answered its parent.  So where no workflow is RUNNING, whoever waits does so, at the end of a
chain of children, for a signal that has not come, for a child that has not been spawned, or for an
id that no child of its own has.

* `waits_of_waiting`    a row that is WAITING has been marked for a wait
* `event_of_terminal`   a row that has ended has a terminal event
* `stalled_for_signal`  the end of a chain of waits
-/

namespace TemporalLight
open Runs

section
variable {Val : Type} {d : Deployment Val} {s s' : Sys Val} {ok : Sys Val → Label Val → Prop}

/-! ## rows -/

theorem waitsAfter_ne_nil {status : String → Option WorkflowStatus} {waits : String → List Wait}
    {updates : List (String × RowUpdate)} {w : String}
    (h : waits w ≠ [] ∨ ∃ wait, (w, .waiting wait) ∈ updates) :
    waitsAfter status waits updates w ≠ [] := by
  induction updates generalizing waits with
  | nil =>
    rcases h with h | ⟨wait, h⟩
    · exact h
    · cases h
  | cons u updates ih =>
    refine ih ?_
    obtain ⟨v, u⟩ := u
    rcases h with h | ⟨wait, h⟩
    · left
      cases u with
      | waiting wait =>
        dsimp only
        split
        · exact List.cons_ne_nil _ _
        · exact h
      | _ => exact h
    · rcases List.mem_cons.mp h with heq | h
      · left
        obtain ⟨rfl, rfl⟩ := Prod.mk.inj heq
        dsimp only
        rw [if_pos rfl]
        exact List.cons_ne_nil _ _
      · exact .inr ⟨wait, h⟩

/-- **A row that is WAITING waits for something.** -/
theorem waits_of_waiting (hs : Reachable d ok s) {w : String} {row : WorkflowRecord}
    (hrow : s.row? w = some row) (hstatus : row.status = .waiting) : s.waits w ≠ [] := by
  refine Reach.invariant_of_reach (I := fun s : Sys Val => ∀ row, s.row? w = some row →
    row.status = .waiting → s.waits w ≠ []) ?_ ?_ hs row hrow hstatus
  · intro row hrow
    rw [Sys.initial_row?] at hrow
    cases hrow
  intro s l s' hs ih _ hl row' hrow' hstatus
  rcases (Step.of_step hl).tables_cases with htab | ⟨t, task, x, txn, k, rfl, hth, -, -, rfl⟩
  · rw [htab.waits]
    exact ih row' (htab.row? ▸ hrow') hstatus
  have hx := Sys.tx?_eq hth
  refine waitsAfter_ne_nil ?_
  by_cases hmark : ∃ wait, (w, .waiting wait) ∈ x.updates
  · exact .inr hmark
  · left
    have hnone (wait : Wait) : (w, .waiting wait) ∉ x.updates := fun h => hmark ⟨wait, h⟩
    have hterm (status : WorkflowStatus) (hu : (w, .terminal status) ∈ x.updates) :
        status.isTerminal = true := by
      rcases (update_origin hs hth rfl hu).2 with ⟨_, _, -, rfl⟩ | ⟨_, _, -, rfl⟩ <;> rfl
    rcases row_of_publish hs hx hrow' with ⟨row, hrow, rfl⟩ | ⟨-, row, -, -, hrun, -, rfl⟩
    · exact ih row hrow (waiting_of_rowAfter hnone hterm hstatus)
    · have hwaiting := waiting_of_rowAfter hnone hterm hstatus
      rw [hrun] at hwaiting
      cases hwaiting

/-- **A row that has ended has a terminal event.** -/
theorem event_of_terminal (hs : Reachable d ok s) {w : String} {row : WorkflowRecord}
    (hrow : s.row? w = some row) (hterm : row.status.isTerminal = true) :
    ∃ e ∈ s.history w, e.eventType.isTerminal = true := by
  refine Reach.invariant_of_reach (I := fun s : Sys Val => ∀ row, s.row? w = some row →
    row.status.isTerminal = true → ∃ e ∈ s.history w, e.eventType.isTerminal = true) ?_ ?_ hs row
    hrow hterm
  · intro row hrow
    rw [Sys.initial_row?] at hrow
    cases hrow
  intro s l s' hs ih _ hl row' hrow' hterm
  have hstep := Step.of_step hl
  rcases hstep.tables_cases with htab | ⟨t, task, x, txn, k, rfl, hth, hrest, -, rfl⟩
  · rw [htab.history]
    exact ih row' (htab.row? ▸ hrow') hterm
  have hx := Sys.tx?_eq hth
  by_cases hend : ∃ e ∈ x.inserted, e.toEntry.ends w = true
  · obtain ⟨e, he, hends⟩ := hend
    obtain ⟨hw, hety⟩ := Bool.and_eq_true_iff.mp hends
    refine ⟨e, Sys.mem_history.mpr ⟨?_, beq_iff_eq.mp hw⟩, hety⟩
    exact (mem_events_publish (t := t)).mpr (.inr he)
  · have hnone : (x.inserted.map EventRecord.toEntry).countP (Entry.ends w) = 0 := by
      refine List.countP_eq_zero.mpr fun a ha hends => ?_
      obtain ⟨e, he, rfl⟩ := List.mem_map.mp ha
      exact hend ⟨e, he, hends⟩
    have hnot {row : WorkflowRecord} (hrow : row.status.isTerminal = false)
        (heq : row' = rowAfter w x.updates row) : False := by
      rw [heq, not_terminal_of_commit hs hth hrest hnone hrow] at hterm
      cases hterm
    rcases row_of_publish hs hx hrow' with ⟨row, hrow, heq⟩ | ⟨-, row, -, -, hrun, -, heq⟩
    · cases hold : row.status.isTerminal with
      | false => exact (hnot hold heq).elim
      | true =>
        obtain ⟨e, he, hety⟩ := ih row hrow hold
        exact ⟨e, hstep.mem_history he, hety⟩
    · exact (hnot (by rw [hrun]; rfl) heq).elim

/-! ## chains of waits -/

/-- `w` is WAITING for something that has not been answered -/
structure Sys.Awaits (s : Sys Val) (w : String) (wait : Wait) : Prop where
  waiting : ∃ row, s.row? w = some row ∧ row.status = .waiting
  marked : wait ∈ s.waits w
  unanswered : ∀ e ∈ s.history w, wait.isAnswer e = false

/-- `w` waits for a child of its own, which waits for a child of its own, down to `v` -/
inductive Sys.WaitsOn (s : Sys Val) : String → String → Prop where
  | refl (w : String) : WaitsOn s w w
  | child {w v : String} {i : Nat} (hwait : s.Awaits w (.child (childWorkflowId w i)))
      (h : WaitsOn s (childWorkflowId w i) v) : WaitsOn s w v

/-- the wait is for a signal, for a child that has no row, or for an id that no own child has -/
def Sys.IsOpen (s : Sys Val) (w : String) (wait : Wait) : Prop :=
  ∀ i, wait = .child (childWorkflowId w i) → s.row? (childWorkflowId w i) = none

theorem length_childWorkflowId (w : String) (i : Nat) :
    w.length < (childWorkflowId w i).length := by
  rw [childWorkflowId, String.length_append, String.length_append]
  have : (":" : String).length = 1 := rfl
  omega

theorem Sys.exists_bound (s : Sys Val) :
    ∃ n, ∀ row ∈ s.workflows, row.workflowId.length ≤ n := by
  obtain ⟨n, hn⟩ :=
    ((List.finite_toSet s.workflows).image fun row => row.workflowId.length).bddAbove
  exact ⟨n, fun row hrow => hn ⟨row, hrow, rfl⟩⟩

theorem awaits_of_waiting (hplain : ∀ s l, ok s l → l.plainSignal = true) (hs : Reachable d ok s)
    {w : String} {row : WorkflowRecord} (hrow : s.row? w = some row)
    (hstatus : row.status = .waiting) : ∃ wait, s.Awaits w wait := by
  obtain ⟨wait, hwait⟩ := List.exists_mem_of_ne_nil _ (waits_of_waiting hs hrow hstatus)
  have hs' : Reachable d (fun _ l => l.plainSignal) s := hs.mono hplain
  exact ⟨wait, ⟨row, hrow, hstatus⟩, hwait, waiting_ok hs' w row hrow hstatus wait hwait⟩

theorem not_terminal_of_awaits
    (hok : ∀ s l, ok s l → l.plainSignal = true ∧ s.endsUnderLease l = true)
    (hs : Reachable d ok s) {w : String} {i : Nat} (h : s.Awaits w (.child (childWorkflowId w i)))
    {row : WorkflowRecord} (hrow : s.row? (childWorkflowId w i) = some row) :
    row.status.isTerminal = false := by
  rw [← Bool.not_eq_true]
  intro hterm
  obtain ⟨e, he, hety⟩ := event_of_terminal hs hrow hterm
  have hagree := outcomes_agree hok hs (p := w) (i := i) rfl
  have hmem : completionPayload (childWorkflowId w i) e
      ∈ ((s.history (childWorkflowId w i)).filter fun e => e.eventType.isTerminal).map
        (completionPayload (childWorkflowId w i)) :=
    List.mem_map_of_mem (List.mem_filter.mpr ⟨he, hety⟩)
  rw [← hagree] at hmem
  obtain ⟨answer, hanswer, -⟩ := List.mem_map.mp hmem
  obtain ⟨hanswer, hres⟩ := List.mem_filter.mp hanswer
  have hnot : isChildResultSignal (childWorkflowId w i) answer = false :=
    h.unanswered answer hanswer
  rw [hnot] at hres
  cases hres

/-- **A forest that stands still waits for what has not come.**  Where no workflow is RUNNING, whoever
is WAITING waits, through children that wait for children, for a signal that is not in the log, for a
child that has not been spawned, or for an id that no child of its own has. -/
theorem stalled_for_signal
    (hs : Reachable d (fun s l => l.plainSignal && s.endsUnderLease l) s)
    (hidle : ∀ row ∈ s.workflows, row.status ≠ .running) {w : String} {row : WorkflowRecord}
    (hrow : s.row? w = some row) (hstatus : row.status = .waiting) :
    ∃ v wait, s.WaitsOn w v ∧ s.Awaits v wait ∧ s.IsOpen v wait := by
  have hok (s : Sys Val) (l : Label Val) (h : (l.plainSignal && s.endsUnderLease l) = true) :
      l.plainSignal = true ∧ s.endsUnderLease l = true := Bool.and_eq_true_iff.mp h
  obtain ⟨n, hn⟩ := s.exists_bound
  -- the ids grow down the chain
  suffices ∀ k w row, n ≤ w.length + k → s.row? w = some row → row.status = .waiting →
      ∃ v wait, s.WaitsOn w v ∧ s.Awaits v wait ∧ s.IsOpen v wait from
    this n w row (Nat.le_add_left n _) hrow hstatus
  intro k
  induction k with
  | zero =>
    intro w row hle hrow hstatus
    obtain ⟨wait, hwait⟩ := awaits_of_waiting (fun s l h => (hok s l h).1) hs hrow hstatus
    refine ⟨w, wait, .refl w, hwait, fun i _ => ?_⟩
    cases hchild : s.row? (childWorkflowId w i) with
    | none => rfl
    | some child =>
      have hlt := length_childWorkflowId w i
      have hbound := hn child (Rows.mem_of_lookup hchild)
      rw [Rows.key_of_lookup hchild] at hbound
      omega
  | succ k ih =>
    intro w row hle hrow hstatus
    obtain ⟨wait, hwait⟩ := awaits_of_waiting (fun s l h => (hok s l h).1) hs hrow hstatus
    by_cases hopen : s.IsOpen w wait
    · exact ⟨w, wait, .refl w, hwait, hopen⟩
    · simp only [Sys.IsOpen, not_forall] at hopen
      obtain ⟨i, rfl, hsome⟩ := hopen
      obtain ⟨child, hchild⟩ := Option.ne_none_iff_exists'.mp hsome
      have hnot := not_terminal_of_awaits hok hs hwait hchild
      have hwaiting : child.status = .waiting := by
        cases hst : child.status with
        | waiting => rfl
        | running => exact (hidle child (Rows.mem_of_lookup hchild) hst).elim
        | _ =>
          rw [hst] at hnot
          cases hnot
      have hlt := length_childWorkflowId w i
      obtain ⟨v, wait', hon, hwait', hopen⟩ :=
        ih (childWorkflowId w i) child (by omega) hchild hwaiting
      exact ⟨v, wait', .child hwait hon, hwait', hopen⟩

end

/-! ## a parent and a child that stand still -/

def joinsWaiting : Deployment Json :=
  .plain fun name => some fun _ delivered =>
    if name == "c" then .waitForSignal "go"
    else if delivered.isEmpty then .spawnChild "c" (.ok (.obj []))
    else .waitForChild "w:0"

/-- thread `t` writes its marker and marks its row -/
def marksWaiting (t : Nat) : List (Label Json) := transact t 2 ++ [.read t] ++ transact t 3

def standsStill : List (Label Json) :=
  [.request (.startWorkflow .w "n" (.obj []))] ++ transact 0 3
    ++ [.claim "A" (newRow "w" "n" none 0)] ++ transact 1 2
    ++ [.read 1, .advance 1] ++ transact 1 7 ++ [.advance 1] ++ marksWaiting 1
    ++ [.claim "B" (newRow "w:0" "c" (some "w") 0)] ++ transact 2 2
    ++ [.read 2, .advance 2] ++ marksWaiting 2

theorem stalled_for_signal_once : ∃ (s : Sys Json) (v : String) (wait : Wait),
    s.hasStatus "w" .waiting = true ∧ s.WaitsOn "w" v ∧ s.Awaits v wait ∧ s.IsOpen v wait := by
  have hrun : (follow (Sys.step joinsWaiting) (fun s l => l.plainSignal && s.endsUnderLease l)
      Sys.initial standsStill).any (fun s => s.hasStatus "w" .waiting
        && s.workflows.all fun row => row.status != .running) = true := by
    decide +kernel
  obtain ⟨s, hs, h⟩ := Reach.exists_of_follow _ hrun
  obtain ⟨hstatus, hidle⟩ := Bool.and_eq_true_iff.mp h
  obtain ⟨row, hrow, hwaiting⟩ := (Option.any_eq_true _ _).mp hstatus
  have hnot (row : WorkflowRecord) (hmem : row ∈ s.workflows) : row.status ≠ .running :=
    bne_iff_ne.mp (List.all_eq_true.mp hidle row hmem)
  obtain ⟨v, wait, h⟩ := stalled_for_signal hs hnot hrow (beq_iff_eq.mp hwaiting)
  exact ⟨s, v, wait, hstatus, h⟩

end TemporalLight
