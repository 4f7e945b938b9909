import TemporalLight.Children
import TemporalLight.Terminal
import TemporalLight.Completions

/-!
# Parent and child agree on how the child has ended

The terminal transaction of a child `c` writes the terminal event of `c` and the completion signal
for `c` in the log of the parent `p`.  Both get their ids when they are inserted, so two terminal
transactions of `c` at once may leave them in opposite orders.  While one of them is executed under
the lease of its run there is no other:

* `ended_by`        a terminal event of `c`, and a completion signal for `c`, is written by a
                    terminal transaction of a run of `c`
* `ends_serial`     under the lease its events come after all committed ones of this kind
* `outcomes_agree`  the completion signals for `c` are the terminal events of `c`, in order
* `outcome_agrees`  and `wait_for_child(c)` delivers the first of them
-/

namespace TemporalLight
open Runs

/-- a terminal event of the child `c`, as the log of its parent should tell of it -/
def completionPayload (c : String) (e : EventRecord) : Json :=
  match e.eventType with
  | .workflowCompleted =>
    childSignalPayload ⟨"", c⟩ "completed" ("result", (e.payload.get? "result").getD .null)
  | _ => childSignalPayload ⟨"", c⟩ "failed" ("error", (e.payload.get? "error").getD .null)

/-- what an await of the child `c` that ended by `e` should deliver -/
def childOutcome {Val : Type} (rt : Runtime Val) (c : String) (e : EventRecord) : Outcome Val :=
  match e.eventType with
  | .workflowCompleted => .ok (rt.ofJson ((e.payload.get? "result").getD .null))
  | _ => .error (.childWorkflowFailedError (.str c) ((e.payload.get? "error").getD .null))

/-- the event tells of the end of `c` -/
def tellsEnd (c : String) (e : EventRecord) : Bool := e.toEntry.ends c || isChildResultSignal c e

def Txn.isTerminal : Txn → Bool
  | .completeWorkflow _ _ _ => true
  | .failWorkflow _ _ _ => true
  | _ => false

section
variable {Val : Type} {d : Deployment Val} {s s' : Sys Val} {ok : Sys Val → Label Val → Prop}

/-! ## the condition -/

/-- a run executes and commits the transaction that ends its workflow while it holds the lease -/
def Sys.endsUnderLease (s : Sys Val) (l : Label Val) : Bool :=
  l.caller?.all fun t => (s.run? t).all fun r => (s.tx? t).all fun x =>
    !x.txn.isTerminal || s.lease r.workflowId == some t

theorem Txn.IsTerminalOf.isTerminal {w : String} {status : WorkflowStatus} {txn : Txn}
    (h : txn.IsTerminalOf w status) : txn.isTerminal = true := by
  rcases h with ⟨_, _, rfl, -⟩ | ⟨_, _, rfl, -⟩ <;> rfl

theorem Sys.lease_of_endsUnderLease {l : Label Val} (h : s.endsUnderLease l = true) {t : Nat}
    (hl : l.caller? = some t) {r : Run Val} {x : Tx} {alive : Bool}
    (hth : s.threads[t]? = some ⟨.run r, some x, alive⟩) {status : WorkflowStatus}
    (hterm : x.txn.IsTerminalOf r.workflowId status) : s.lease r.workflowId = some t := by
  simpa [Sys.endsUnderLease, hl, Sys.run?_eq hth, Sys.tx?_eq hth, hterm.isTerminal] using h

/-! ## who tells of an end -/

/-- **An end is told by a terminal transaction of a run.** -/
theorem ended_by (hplain : ∀ s l, ok s l → l.plainSignal = true) (hs : Reachable d ok s) {t : Nat}
    {task : Task Val} {x : Tx} {alive : Bool} (hth : s.threads[t]? = some ⟨task, some x, alive⟩)
    {e : EventRecord} (he : e ∈ x.inserted) {c : String} (hc : tellsEnd c e = true) :
    ∃ r status, task = .run r ∧ r.workflowId = c ∧ x.txn.IsTerminalOf c status := by
  rcases Bool.or_eq_true_iff.mp hc with hend | hans
  · obtain ⟨hw, hterm⟩ := Bool.and_eq_true_iff.mp hend
    obtain rfl : e.workflowId = c := beq_iff_eq.mp hw
    have hmem := (tx_ok hs (Sys.tx?_eq hth)).mem_entries he
    obtain ⟨⟨r, htask, hr⟩, status, hstatus⟩ :=
      (issues_of_thread hs hth rfl).terminal_of_entry hmem hterm
    exact ⟨r, status, htask, hr, hstatus⟩
  · obtain ⟨r, status, htask, hr, hstatus, -⟩ := completion_by hplain hs hth he hans
    exact ⟨r, status, htask, hr, hstatus⟩

/-- **Under the lease an end comes after all others of its workflow.** -/
theorem ends_serial (hok : ∀ s l, ok s l → l.plainSignal = true ∧ s.endsUnderLease l = true)
    (hs : Reachable d ok s) {t : Nat} {x : Tx} (hx : s.tx? t = some x) {c : String}
    (hlease : s.lease c = some t) {e e' : EventRecord} (he : e ∈ x.inserted)
    (hc : tellsEnd c e = true) (he' : e' ∈ s.events) (hc' : tellsEnd c e' = true) :
    e'.eventId < e.eventId := by
  refine Reach.invariant_of_reach (I := fun s : Sys Val => ∀ t x e e', s.tx? t = some x →
    s.lease c = some t → e ∈ x.inserted → tellsEnd c e = true → e' ∈ s.events →
      tellsEnd c e' = true → e'.eventId < e.eventId) ?_ ?_ hs t x e e' hx hlease he hc he' hc'
  · intro t x e e' _ _ _ _ he'
    cases he'
  intro s l s' hr ih hl hstep t x' e e' hx' hlease he hc he' hc'
  replace hstep := Step.of_step hstep
  -- the lease has not changed hands, for no claim is committed while a transaction is open
  have hlease₀ : s.lease c = some t := by
    rcases lease_cases hr hstep c with h | ⟨v, _, _, _, _, hv, -, -, -, -, -, h⟩
        | ⟨_, _, _, _, -, -, -, -, -, h⟩
    · exact h ▸ hlease
    · rw [h] at hlease
      exact absurd hv (Option.some.inj hlease ▸ hstep.ne_commit hx')
    · rw [h] at hlease
      cases hlease
  refine hstep.newer (K := fun e' => tellsEnd c e' = true) (ids_ok hr) hx' he
    (fun x hx he e' he' hc' => ih t x e e' hx hlease₀ he hc he' hc') ?_ e' he' hc'
  -- another run would end `c` without the lease
  rintro u y x rfl hut hy - - a ha hca
  obtain ⟨task, alive, hth⟩ := Sys.tx?_eq_some hy
  obtain ⟨r, status, rfl, rfl, hstatus⟩ := ended_by (fun s l h => (hok s l h).1) hr hth ha hca
  rw [Sys.lease_of_endsUnderLease (hok s _ hl).2 rfl hth hstatus] at hlease₀
  exact hut (Option.some.inj hlease₀)

/-! ## one to one and in order -/

/-- the two events of a terminal transaction of the child `c` of `p` -/
theorem Txn.IsTerminalOf.entries {L : Loaded} {wait? : Option Wait} {p c : String}
    {status : WorkflowStatus} {txn : Txn} (h : txn.IsTerminalOf c status)
    (hrun : txn.OfRun c wait? L)
    (hpay : ∀ w i n ty error, Stmt.insertEvent w i n ty (.error error) ∉ txn.statements)
    (hparent : ∀ parentInfo, ParentOk c L parentInfo → parentInfo = some ⟨p, c⟩) :
    ∃ ty childStatus outcome, txn.statements.filterMap Stmt.event?
        = [⟨c, -1, "workflow", ty, .obj [outcome]⟩,
          ⟨p, -1, "signal", .signal, childSignalPayload ⟨p, c⟩ childStatus outcome⟩]
      ∧ ((ty = .workflowCompleted ∧ childStatus = "completed" ∧ outcome.1 = "result")
        ∨ (ty = .workflowFailed ∧ childStatus = "failed" ∧ outcome.1 = "error")) := by
  rcases h with ⟨result, parentInfo, rfl, -⟩ | ⟨message, parentInfo, rfl, -⟩
  · obtain rfl := hparent _ hrun.2
    cases result with
    | error error =>
      refine absurd ?_ (hpay c (-1) "workflow" .workflowCompleted error)
      exact List.mem_append_left _ (List.mem_append_left _ (List.mem_append_left _
        List.mem_cons_self))
    | ok result =>
      exact ⟨.workflowCompleted, "completed", ("result", result),
        writeTerminal_entries c .workflowCompleted ("result", result) .completed (some ⟨p, c⟩)
          "completed", .inl ⟨rfl, rfl, rfl⟩⟩
  · obtain rfl := hparent _ hrun.2
    exact ⟨.workflowFailed, "failed", ("error", .str message),
      writeTerminal_entries c .workflowFailed ("error", .str message) .failed (some ⟨p, c⟩)
        "failed", .inr ⟨rfl, rfl, rfl⟩⟩

/-- the events a commit adds to the two logs agree -/
theorem commit_agrees (hplain : ∀ s l, ok s l → l.plainSignal = true) (hs : Reachable d ok s)
    {t : Nat} {task : Task Val} {x : Tx} {alive : Bool}
    (hth : s.threads[t]? = some ⟨task, some x, alive⟩) (hrest : x.rest = []) {p c : String} {i : Nat}
    (hc : c = childWorkflowId p i) :
    (x.inserted.filter fun e => e.workflowId == p && isChildResultSignal c e).map (·.payload)
      = (x.inserted.filter fun e => e.workflowId == c && e.eventType.isTerminal).map
        (completionPayload c) := by
  have hx := Sys.tx?_eq hth
  by_cases htells : ∃ e ∈ x.inserted, tellsEnd c e = true
  · obtain ⟨e, he, htells⟩ := htells
    obtain ⟨r, status, rfl, rfl, hstatus⟩ := ended_by hplain hs hth he htells
    rcases committed hs hx hrest with ⟨hnil, -⟩ | ⟨hins, -, hpay⟩
    · rw [hnil]
      rfl
    have hrun : x.txn.OfRun r.workflowId r.wait? s.loaded := issues_of_thread hs hth rfl
    obtain ⟨ty, childStatus, outcome, hentries, hkind⟩ := hstatus.entries hrun hpay
      fun _ h => parent_of_child hs (hc ▸ h) |>.trans (by rw [hc])
    rw [hentries] at hins
    obtain ⟨e₁, l, hl, h₁, hmap⟩ := List.map_eq_cons_iff.mp hins
    obtain ⟨e₂, l', hl', h₂, hmap'⟩ := List.map_eq_cons_iff.mp hmap
    obtain rfl := List.map_eq_nil_iff.mp hmap'
    have hne : r.workflowId ≠ p := hc ▸ childWorkflowId_ne p i
    have hans : isChildResultSignal r.workflowId e₂ = true := by
      have htype : e₂.eventType = .signal := congrArg Entry.eventType h₂
      have hindex : e₂.stepIndex = -1 := congrArg Entry.stepIndex h₂
      have hpayload := congrArg Entry.payload h₂
      simp [isChildResultSignal, EventRecord.isSignal, htype, hindex, hpayload, childSignalPayload,
        Json.getIs]
    have hfst : (e₁.workflowId == p && isChildResultSignal r.workflowId e₁) = false := by
      rw [show e₁.workflowId = r.workflowId from congrArg Entry.workflowId h₁]
      simp [hne]
    have hsnd : (e₂.workflowId == p && isChildResultSignal r.workflowId e₂) = true := by
      rw [show e₂.workflowId = p from congrArg Entry.workflowId h₂]
      simp [hans]
    have hend : (e₁.workflowId == r.workflowId && e₁.eventType.isTerminal) = true := by
      rw [show e₁.workflowId = r.workflowId from congrArg Entry.workflowId h₁,
        show e₁.eventType = ty from congrArg Entry.eventType h₁]
      rcases hkind with ⟨rfl, -⟩ | ⟨rfl, -⟩ <;> simp [EventType.isTerminal]
    have hnot : (e₂.workflowId == r.workflowId && e₂.eventType.isTerminal) = false := by
      rw [show e₂.workflowId = p from congrArg Entry.workflowId h₂]
      simp [Ne.symm hne]
    have hpayload : e₂.payload = completionPayload r.workflowId e₁ := by
      obtain ⟨key, value⟩ := outcome
      rw [show e₂.payload = _ from congrArg Entry.payload h₂]
      unfold completionPayload
      rw [show e₁.eventType = ty from congrArg Entry.eventType h₁,
        show e₁.payload = _ from congrArg Entry.payload h₁]
      rcases hkind with ⟨rfl, rfl, hkey⟩ | ⟨rfl, rfl, hkey⟩
      · obtain rfl : key = "result" := hkey
        simp [childSignalPayload]
      · obtain rfl : key = "error" := hkey
        simp [childSignalPayload]
    rw [hl, hl']
    simp only [List.filter_cons, hfst, hsnd, hend, hnot, List.filter_nil, if_true,
      Bool.false_eq_true, if_false, List.map_cons, List.map_nil, hpayload]
  · have hnone : ∀ e ∈ x.inserted, tellsEnd c e = false := by simpa using htells
    rw [List.filter_eq_nil_iff.mpr, List.filter_eq_nil_iff.mpr]
    · rfl
    · intro e he h
      have := hnone e he
      simp [tellsEnd, Entry.ends] at this h
      simp_all
    · intro e he h
      have := hnone e he
      simp_all [tellsEnd]

/-- **The completion signals for a child are its terminal events, in order.** -/
theorem outcomes_agree (hok : ∀ s l, ok s l → l.plainSignal = true ∧ s.endsUnderLease l = true)
    (hs : Reachable d ok s) {p c : String} {i : Nat} (hc : c = childWorkflowId p i) :
    ((s.history p).filter (isChildResultSignal c)).map (·.payload)
      = ((s.history c).filter fun e => e.eventType.isTerminal).map (completionPayload c) := by
  refine Reach.invariant_of_reach (I := fun s : Sys Val =>
    ((s.history p).filter (isChildResultSignal c)).map (·.payload)
      = ((s.history c).filter fun e => e.eventType.isTerminal).map (completionPayload c)) rfl ?_ hs
  intro s l s' hr ih hl hstep
  replace hstep := Step.of_step hstep
  rcases hstep.tables_cases with htab | ⟨t, task, x, txn, k, rfl, hth, hrest, -, rfl⟩
  · rw [htab.history, htab.history]
    exact ih
  have hx := Sys.tx?_eq hth
  have hplain : ∀ s l, ok s l → l.plainSignal = true := fun s l h => (hok s l h).1
  -- what the commit adds comes last in both logs
  have hlast : ∀ a ∈ x.inserted, tellsEnd c a = true → ∀ b ∈ s.events, tellsEnd c b = true →
      b.eventId < a.eventId := by
    intro a ha hca b hb hcb
    obtain ⟨r, status, rfl, rfl, hstatus⟩ := ended_by hplain hr hth ha hca
    exact ends_serial hok hr hx (Sys.lease_of_endsUnderLease (hok s _ hl).2 rfl hth hstatus)
      ha hca hb hcb
  rw [Sys.setThread_history, Sys.setThread_history,
    Sys.filter_publish (ids_ok hr) hx fun a ha _ hqa b hb hqb =>
      hlast a ha (by simp [tellsEnd, hqa]) b (Sys.mem_history.mp hb).1 (by simp [tellsEnd, hqb]),
    Sys.filter_publish (ids_ok hr) hx fun a ha hw hqa b hb hqb =>
      hlast a ha (by simp [tellsEnd, Entry.ends, hw, hqa]) b (Sys.mem_history.mp hb).1
        (by simp [tellsEnd, Entry.ends, (Sys.mem_history.mp hb).2, hqb]),
    List.map_append, List.map_append, ih, commit_agrees hplain hr hth hrest hc]

/-! ## what the parent gets -/

theorem childSignalResult_completionPayload (rt : Runtime Val) {c : String} {e e' : EventRecord}
    (h : e'.payload = completionPayload c e) : childSignalResult rt e' = childOutcome rt c e := by
  unfold childSignalResult childOutcome
  rw [h]
  unfold completionPayload
  split <;> simp [childSignalPayload, Json.getIs]

/-- **Parent and child agree on the outcome**, when every terminal transaction is executed under
the lease of its run. -/
theorem outcome_agrees (hs : Reachable d (fun s l => l.plainSignal && s.endsUnderLease l) s)
    (p : String) (i : Nat) :
    ((s.history p).filter (isChildResultSignal (childWorkflowId p i))).map (·.payload)
        = ((s.history (childWorkflowId p i)).filter fun e => e.eventType.isTerminal).map
          (completionPayload (childWorkflowId p i))
    ∧ ∀ t r j outcome, s.run? t = some r → r.workflowId = p → r.delivered[j]? = some outcome →
      r.program (r.delivered.take j) = .waitForChild (childWorkflowId p i) →
        (∃ e, (s.history (childWorkflowId p i)).find? (fun e => e.eventType.isTerminal) = some e
          ∧ outcome = childOutcome d.toRuntime (childWorkflowId p i) e)
        ∨ outcome = .error (.workflowSuspended
          (Wait.child (childWorkflowId p i)).suspensionText)
        ∨ ∃ error, error.RefusesMarker ∧ outcome = .error error := by
  have hok : ∀ (s : Sys Val) (l : Label Val), (l.plainSignal && s.endsUnderLease l) = true →
      l.plainSignal = true ∧ s.endsUnderLease l = true := fun s l h => Bool.and_eq_true_iff.mp h
  have hagree := outcomes_agree hok hs (p := p) (i := i) rfl
  refine ⟨hagree, fun t r j outcome hr hw hj hact => ?_⟩
  have hs' : Reachable d (fun s l => s.answersInOrder p (.child (childWorkflowId p i)) l = true) s :=
    hs.strengthen fun s l s' hr _ _ => completions_in_order (fun s l h => (hok s l h).1) hr l p
  rcases delivered_first (fun _ _ => id) hs' hr hw hj (by rw [hact]; rfl) with
      ⟨first, hfirst, rfl⟩ | herror
  · -- the first completion signal is made of the first terminal event
    have hhead := congrArg List.head? hagree
    rw [List.head?_map, List.head?_map, List.head?_filter, List.head?_filter,
      show (s.history p).find? (isChildResultSignal _) = some first from hfirst] at hhead
    obtain ⟨e, he, hpayload⟩ := Option.map_eq_some_iff.mp hhead.symm
    exact .inl ⟨e, he, childSignalResult_completionPayload d.toRuntime hpayload.symm⟩
  · exact .inr herror

end

/-! ## a handler that goes on after the suspension -/

/-- `m` and `n` join a child, `d` or `c`; the handler of `c` catches whatever its sleep raises -/
def swallows : Deployment Json :=
  .plain fun name => some fun _ delivered =>
    if name == "c" then
      match delivered with
      | [] => .sleep 0 0 0 0
      | [.ok _] => .ret (.ok (.int 1))
      | _ => .ret (.ok (.int 2))
    else if name == "d" then .ret (.ok (.int 3))
    else
      match delivered with
      | [] => .spawnChild (if name == "m" then "d" else "c") (.ok (.obj []))
      | [.ok _] => .waitForChild "w:0"
      | [_, .ok result] => .ret (.ok result)
      | _ => .raise (.other "RuntimeError" "")

def spawnsFrom (name : String) : List (Label Json) :=
  [.request (.startWorkflow .w name (.obj []))] ++ transact 0 3
    ++ [.claim "A" (newRow "w" name none 0)] ++ transact 1 2
    ++ [.read 1, .advance 1] ++ transact 1 7 ++ [.advance 1]

/-- the parent waits for a child whose end it has not seen when it was started -/
def joinsEnded : List (Label Json) :=
  transact 1 2 ++ [.read 1] ++ transact 1 2 ++ [.read 1, .advance 1]

/-- the run of B is suspended, returns nevertheless, and has inserted its end when C runs `c` -/
def endsTwice : List (Label Json) :=
  [.claim "B" (newRow "w:0" "c" (some "w") 0)] ++ transact 2 2
    ++ [.read 2, .advance 2, .read 2] ++ transact 2 2 ++ [.read 2] ++ transact 2 1
    ++ [.advance 2, .begin 2, .execute 2]
    ++ [.claim "C" (newRow "w:0" "c" (some "w") 0)] ++ transact 3 2
    ++ [.read 3, .advance 3, .read 3, .advance 3] ++ transact 3 8
    ++ List.replicate 7 (.execute 2) ++ [.commit 2]

/-- the run of `w` has joined `w:0` and got the number `n` -/
def Run.joined (r : Run Json) (n : Int) : Bool :=
  r.workflowId == "w"
    && (match r.program (r.delivered.take 1) with
      | .waitForChild childId => childId == "w:0"
      | _ => false)
    && match r.delivered with
      | [_, .ok (.int m)] => m == n
      | _ => false

theorem Run.joined_spec {r : Run Json} {n : Int} (h : r.joined n = true) :
    r.workflowId = "w" ∧ r.program (r.delivered.take 1) = .waitForChild "w:0"
      ∧ r.delivered[1]? = some (.ok (.int n)) := by
  unfold Run.joined at h
  obtain ⟨h, hdel⟩ := Bool.and_eq_true_iff.mp h
  obtain ⟨hw, hact⟩ := Bool.and_eq_true_iff.mp h
  refine ⟨beq_iff_eq.mp hw, ?_, ?_⟩
  · split at hact
    · rename_i childId heq
      rw [heq, beq_iff_eq.mp hact]
    · cases hact
  · split at hdel
    · rename_i first m heq
      rw [heq, beq_iff_eq.mp hdel]
      rfl
    · cases hdel

/-- the number a payload holds under `result` -/
def resultOf (payload : Json) : Option Int :=
  match payload.get? "result" with
  | some (.int n) => some n
  | _ => none

/-- a child that ends once: its parent gets the outcome -/
theorem outcome_agrees_once : ∃ (s : Sys Json) (e : EventRecord) (r : Run Json),
    s.run? 1 = some r ∧ r.joined 3 = true
      ∧ (s.history "w:0").find? (fun e => e.eventType.isTerminal) = some e
      ∧ r.delivered[1]? = some (childOutcome swallows.toRuntime "w:0" e) := by
  have hrun : (follow (Sys.step swallows) (fun s l => l.plainSignal && s.endsUnderLease l)
      Sys.initial (spawnsFrom "m" ++ [.claim "B" (newRow "w:0" "d" (some "w") 0)] ++ transact 2 2
        ++ [.read 2, .advance 2] ++ transact 2 8 ++ joinsEnded)).any
          (fun s => (s.run? 1).any (·.joined 3)) = true := by
    decide +kernel
  obtain ⟨s, hs, h⟩ := Reach.exists_of_follow _ hrun
  obtain ⟨r, hr, hjoined⟩ := (Option.any_eq_true _ _).mp h
  obtain ⟨hw, hact, hdel⟩ := Run.joined_spec hjoined
  rcases (outcome_agrees hs "w" 0).2 1 r 1 _ hr hw hdel hact with
      ⟨e, he, ho⟩ | herr | ⟨_, -, herr⟩
  · exact ⟨s, e, r, hr, hjoined, he, hdel.trans (congrArg some ho)⟩
  · cases herr
  · cases herr

/-- The child ends with 2 and then with 1, its parent is told 1 and then 2, and the parent's await
delivers 1. -/
theorem outcome_differs : ∃ (s : Sys Json) (r : Run Json),
    Reachable swallows (fun s l => l.plainSignal && s.leasesLive) s
      ∧ ((s.history "w:0").filter fun e => e.eventType.isTerminal).filterMap
        (fun e => resultOf e.payload) = [2, 1]
      ∧ ((s.history "w").filter (isChildResultSignal "w:0")).filterMap
        (fun e => (e.payload.get? "payload").bind resultOf) = [1, 2]
      ∧ s.run? 1 = some r ∧ r.workflowId = "w"
      ∧ r.program (r.delivered.take 1) = .waitForChild "w:0"
      ∧ r.delivered[1]? = some (.ok (.int 1)) := by
  have hrun : (follow (Sys.step swallows) (fun s l => l.plainSignal && s.leasesLive)
      Sys.initial (spawnsFrom "n" ++ endsTwice ++ joinsEnded)).any (fun s =>
        ((s.history "w:0").filter fun e => e.eventType.isTerminal).filterMap
          (fun e => resultOf e.payload) == [2, 1]
        && ((s.history "w").filter (isChildResultSignal "w:0")).filterMap
          (fun e => (e.payload.get? "payload").bind resultOf) == [1, 2]
        && (s.run? 1).any (·.joined 1)) = true := by
    decide +kernel
  obtain ⟨s, hs, h⟩ := Reach.exists_of_follow _ hrun
  obtain ⟨h, hjoined⟩ := Bool.and_eq_true_iff.mp h
  obtain ⟨hends, hsignals⟩ := Bool.and_eq_true_iff.mp h
  obtain ⟨r, hr, hjoined⟩ := (Option.any_eq_true _ _).mp hjoined
  exact ⟨s, r, hs, beq_iff_eq.mp hends, beq_iff_eq.mp hsignals, hr, Run.joined_spec hjoined⟩

end TemporalLight
