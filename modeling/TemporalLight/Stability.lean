import TemporalLight.Wakeup

/-!
# What a wait delivers

A wait delivers the first answer, in the order of the ids, of a history that its run has read.  The
ids come from a sequence when the rows are inserted, the rows appear when they are committed, and
two transactions that insert into one log may commit in the other order.

* `first_stable`    when no answer is committed before one that has been read, the first answer of
                    a history is the first answer of every later one;
* `signal_stable`   hence all runs deliver the same answer;
* `signal_changes`  two concurrent signals can commit in the other order.
-/

namespace TemporalLight
open Runs

section
variable {Val : Type} {d : Deployment Val} {s s' : Sys Val} {ok : Sys Val → Label Val → Prop}
  {w : String} {wait : Wait}

/-- an answer that is committed has a larger id than the first answer of every history of `w` that
has been read -/
def Sys.answersInOrder (s : Sys Val) (w : String) (wait : Wait) : Label Val → Bool
  | .commit t => (s.tx? t).all fun x => x.inserted.all fun e =>
      !(e.workflowId == w && wait.isAnswer e) || s.loaded.all fun history =>
        history.1 != w
          || (history.2.find? wait.isAnswer).all fun first => first.eventId < e.eventId
  | _ => true

theorem Sys.answersInOrder_commit {t : Nat} {x : Tx}
    (h : s.answersInOrder w wait (.commit t) = true) (hx : s.tx? t = some x) {e : EventRecord}
    (he : e ∈ x.inserted) (hw : e.workflowId = w) (hans : wait.isAnswer e = true)
    {history : List EventRecord} (hl : (w, history) ∈ s.loaded) {first : EventRecord}
    (hfirst : history.find? wait.isAnswer = some first) : first.eventId < e.eventId := by
  simp only [Sys.answersInOrder, hx, Option.all_some, List.all_eq_true] at h
  have hall := h e he
  simp only [hw, beq_self_eq_true, hans, Bool.and_self, Bool.not_true, Bool.false_or,
    List.all_eq_true] at hall
  simpa [hfirst] using hall _ hl

/-- **The first answer of a history that has been read stays the first one.** -/
theorem first_stable (hok : ∀ s l, ok s l → s.answersInOrder w wait l = true)
    (hs : Reachable d ok s) {history : List EventRecord} (hl : (w, history) ∈ s.loaded)
    {first : EventRecord} (hfirst : history.find? wait.isAnswer = some first) :
    (s.history w).find? wait.isAnswer = some first := by
  refine Reach.invariant_of_reach (I := fun s : Sys Val => ∀ history first,
    (w, history) ∈ s.loaded → history.find? wait.isAnswer = some first →
      (s.history w).find? wait.isAnswer = some first) (by simp [Sys.initial]) ?_ hs
    history first hl hfirst
  intro s l s' hr ih hcond hstep history first hl hfirst
  replace hstep := Step.of_step hstep
  rcases hstep.tables_cases with htab | ⟨t, task, x, txn, k, rfl, hth, hrest, -, rfl⟩
  · rw [htab.history]
    cases hstep with
    | @read t task q k reply hth hq hreply =>
      replace hl : (w, history) ∈ (s.noteLoad q).loaded := hl
      cases q with
      | loadEventHistory w' =>
        rcases List.mem_cons.mp hl with heq | hl
        · obtain ⟨rfl, rfl⟩ := Prod.mk.inj heq
          exact hfirst
        · exact ih history first hl hfirst
      | _ => exact ih history first hl hfirst
    | _ => exact ih history first hl hfirst
  · have hx := Sys.tx?_eq hth
    have hids := ids_ok hr
    rw [Sys.setThread_history, Sys.history_publish hids hx]
    refine ById.find?_insertAll_some (hids.sorted.filter _)
      ((hids.inserted_sorted t x hx).filter _) ?_ (ih history first hl hfirst) ?_
    · intro a ha b hb
      exact hids.inserted_ne t x hx a (List.mem_filter.mp ha).1 b (List.mem_filter.mp hb).1
    · intro a ha hans
      obtain ⟨hmem, hw⟩ := List.mem_filter.mp ha
      exact Sys.answersInOrder_commit (hok s _ hcond) hx hmem (beq_iff_eq.mp hw) hans hl hfirst

theorem delivered_first (hok : ∀ s l, ok s l → s.answersInOrder w wait l = true)
    (hs : Reachable d ok s) {t : Nat} {r : Run Val} (hr : s.run? t = some r)
    (hw : r.workflowId = w) {i : Nat} {outcome : Outcome Val}
    (ho : r.delivered[i]? = some outcome)
    (hwait : (r.program (r.delivered.take i)).wait? = some wait) :
    (∃ first, (s.history w).find? wait.isAnswer = some first
      ∧ outcome = wait.outcome d.toRuntime first)
    ∨ outcome = .error (.workflowSuspended wait.suspensionText)
    ∨ ∃ error, error.RefusesMarker ∧ outcome = .error error := by
  obtain ⟨tx, alive, hth⟩ := Sys.thread_of_run? hr
  have hrun : r.Ok d.toRuntime (d.workflowRegistry t) s.loaded := task_ok hs hth
  have hdel := hrun.delivers i outcome ho
  unfold Action.Delivers at hdel
  rw [hwait] at hdel
  rcases hdel with ⟨history, first, hmem, hfirst, heq⟩ | herror
  · exact .inl ⟨first, first_stable hok hs (hw ▸ hmem) hfirst, heq⟩
  · exact .inr herror

/-- **All waits for a signal deliver the same payload**, when no signal of this type is committed
before one that has been read. -/
theorem signal_stable {signalType : String}
    (hs : Reachable d (fun s l => s.answersInOrder w (.signal signalType) l) s) {t u : Nat}
    {r r' : Run Val} (hr : s.run? t = some r) (hr' : s.run? u = some r') (hw : r.workflowId = w)
    (hw' : r'.workflowId = w) {i j : Nat} {payload payload' : Val}
    (hi : r.delivered[i]? = some (.ok payload)) (hj : r'.delivered[j]? = some (.ok payload'))
    (hwait : (r.program (r.delivered.take i)).wait? = some (.signal signalType))
    (hwait' : (r'.program (r'.delivered.take j)).wait? = some (.signal signalType)) :
    payload = payload' := by
  rcases delivered_first (fun _ _ => id) hs hr hw hi hwait with
      ⟨first, hfirst, heq⟩ | h | ⟨_, -, h⟩
  · rcases delivered_first (fun _ _ => id) hs hr' hw' hj hwait' with
        ⟨first', hfirst', heq'⟩ | h | ⟨_, -, h⟩
    · rw [hfirst] at hfirst'
      obtain rfl := Option.some.inj hfirst'
      exact Except.ok.inj (heq.trans heq'.symm)
    · cases h
    · cases h
  · cases h
  · cases h

end

/-! ## two signals in the other order -/

/-- of two signals the second one is committed, and the run of worker A reads it -/
def readsSecond : List (Label Json) :=
  [.request (.startWorkflow .w "n" (.obj []))] ++ transact 0 3
    ++ [.claim "A" (newRow "w" "n" none 0)] ++ transact 1 2
    ++ [.request (.sendSignal "w" "go" (.int 1)), .read 2,
      .request (.sendSignal "w" "go" (.int 2)), .read 3]
    ++ [.begin 2, .execute 2, .execute 2] ++ transact 3 4
    ++ [.read 1, .advance 1, .advance 1]

/-- the run crashes, the first signal is committed, and a run of worker B replays -/
def replaysFirst : List (Label Json) :=
  [.crash 1, .tick 31000000, .execute 2, .execute 2, .commit 2,
    .claim "B" { newRow "w" "n" none 0 with lockedBy := some "A", lockedUntil := some 30000000 }]
    ++ transact 4 2 ++ [.read 4, .advance 4, .advance 4]

/-- the first await of the run was a wait for the signal and delivered this number -/
def Run.received (r : Run Json) (n : Int) : Bool :=
  (r.program []).wait? == some (.signal "go") && r.workflowId == "w"
    && match r.delivered with
      | .ok (.int m) :: _ => m == n
      | _ => false

theorem Run.received_spec {r : Run Json} {n : Int} (h : r.received n = true) :
    (r.program (r.delivered.take 0)).wait? = some (.signal "go") ∧ r.workflowId = "w"
      ∧ r.delivered[0]? = some (.ok (.int n)) := by
  simp only [Run.received, Bool.and_eq_true, beq_iff_eq] at h
  obtain ⟨⟨hwait, hw⟩, hdel⟩ := h
  refine ⟨hwait, hw, ?_⟩
  split at hdel
  · rename_i m rest heq
    rw [heq, beq_iff_eq.mp hdel]
    rfl
  · cases hdel

/-- a run alone receives its signal twice, before and after a crash -/
theorem signal_stable_once : ∃ (s : Sys Json) (r r' : Run Json), s.run? 1 = some r
    ∧ s.run? 3 = some r' ∧ r.received 5 = true ∧ r'.received 5 = true
    ∧ ∀ payload payload', r.delivered[0]? = some (.ok payload) →
      r'.delivered[0]? = some (.ok payload') → payload = payload' := by
  have hrun : (follow (Sys.step waits) (fun s l => s.answersInOrder "w" (.signal "go") l)
      Sys.initial
      ([.request (.startWorkflow .w "n" (.obj []))] ++ transact 0 3
        ++ [.claim "A" (newRow "w" "n" none 0)] ++ transact 1 2
        ++ [.request (.sendSignal "w" "go" (.int 5)), .read 2] ++ transact 2 4
        ++ [.read 1, .advance 1, .advance 1, .crash 1, .tick 31000000,
          .claim "B" { newRow "w" "n" none 0 with
            lockedBy := some "A", lockedUntil := some 30000000 }]
        ++ transact 3 2 ++ [.read 3, .advance 3, .advance 3])).any (fun s =>
          (s.run? 1).any (·.received 5) && (s.run? 3).any (·.received 5)) = true := by
    decide +kernel
  obtain ⟨s, hs, h⟩ := Reach.exists_of_follow _ hrun
  obtain ⟨h, h'⟩ := Bool.and_eq_true_iff.mp h
  obtain ⟨r, hr, hrec⟩ := (Option.any_eq_true _ _).mp h
  obtain ⟨r', hr', hrec'⟩ := (Option.any_eq_true _ _).mp h'
  obtain ⟨hwait, hw, -⟩ := Run.received_spec hrec
  obtain ⟨hwait', hw', -⟩ := Run.received_spec hrec'
  exact ⟨s, r, r', hr, hr', hrec, hrec', fun payload payload' hi hj =>
    signal_stable hs hr hr' hw hw' hi hj hwait hwait'⟩

/-- A run receives the second of two signals, which was committed first; after a crash the replay
receives the first one. -/
theorem signal_changes : ∃ (s : Sys Json) (r r' : Run Json), Reachable waits (fun _ _ => true) s
    ∧ s.run? 1 = some r ∧ s.run? 4 = some r' ∧ r.workflowId = "w" ∧ r'.workflowId = "w"
    ∧ (r.program (r.delivered.take 0)).wait? = some (.signal "go")
    ∧ (r'.program (r'.delivered.take 0)).wait? = some (.signal "go")
    ∧ r.delivered[0]? = some (.ok (.int 2)) ∧ r'.delivered[0]? = some (.ok (.int 1)) := by
  have hrun : (follow (Sys.step waits) (fun _ _ => true) Sys.initial
      (readsSecond ++ replaysFirst)).any (fun s =>
        (s.run? 1).any (·.received 2) && (s.run? 4).any (·.received 1)) = true := by
    decide +kernel
  obtain ⟨s, hs, h⟩ := Reach.exists_of_follow _ hrun
  obtain ⟨h, h'⟩ := Bool.and_eq_true_iff.mp h
  obtain ⟨r, hr, hrec⟩ := (Option.any_eq_true _ _).mp h
  obtain ⟨r', hr', hrec'⟩ := (Option.any_eq_true _ _).mp h'
  obtain ⟨hwait, hw, hdel⟩ := Run.received_spec hrec
  obtain ⟨hwait', hw', hdel'⟩ := Run.received_spec hrec'
  exact ⟨s, r, r', hs, hr, hr', hw, hw', hwait, hwait', hdel, hdel'⟩

end TemporalLight
