import TemporalLight.Durability
import TemporalLight.Outcome
import TemporalLight.Sequential
import TemporalLight.Spawns

/-!
# Schedules do not matter

A forest whose activities are functions of their arguments, and whose signals carry the payloads
that were agreed on, computes what its functions compute one after another: whatever the order in
which workers, siblings and signals come, and wherever runs crash.

* `pass_ok`               the values of the steps in a log are those of the plain computation
* `result_sequential`     a recorded result is the result of the plain computation
* `schedule_independent`  two executions agree on the result, and on the values of all runs
* `root_independent`      so a root that both complete has the same result in both
* `root_dependent`        unless a client sends a signal of the reserved type
-/

namespace TemporalLight
open Runs Resumption

section
variable {Val : Type} {F : Forest Val} {d : Deployment Val} {s s' : Sys Val}
  {ok : Sys Val → Label Val → Prop}

/-! ## forests -/

/-- the workers run the code of the forest, which has no handlers and waits for no signal of the
reserved type -/
structure Forest.DeployedAs (F : Forest Val) (d : Deployment Val) : Prop where
  ofJson : d.ofJson = F.ofJson
  registry : ∀ t, d.workflowRegistry t = F.workflowRegistry
  handler_free : ∀ name f input, F.workflowRegistry name = some f → (f input).HandlerFree
  waits : ∀ name f input vs, F.workflowRegistry name = some f →
    (f input).next vs ≠ .waitForSignal childCompletedSignalType

/-- no lease of a live run has lapsed, the signals carry their payloads, and a body that returns
has computed its function; it may fail at any time -/
structure Forest.Admits (F : Forest Val) (d : Deployment Val) (s : Sys Val) (l : Label Val) :
    Prop where
  live : s.leasesLive = true
  signals : ∀ w T payload, l = .request (.sendSignal w T payload) →
    T ≠ childCompletedSignalType ∧ payload = F.signal w T
  bodies : ∀ t r w i f args k v, l = .body t (.ok v) → s.run? t = some r →
    r.next? = some ⟨.runActivityBody w i f args, k⟩ →
      f.Plain d.toRuntime v ∧ ∀ input, args = .json input → v = F.body f input

/-- the workflow `w` of the forest, with the program `P` -/
def Forest.replayable (F : Forest Val) (d : Deployment Val) (w : String) {P : Program Val}
    (hP : P.HandlerFree) : Replayable Val where
  rt := d.toRuntime
  workflowId := w
  program := P
  yields f args v := f.Plain d.toRuntime v ∧ ∀ input, args = .json input → v = F.body f input
  handler_free := hP
  plain _ _ _ h := h.1

theorem Forest.Admits.plainSignal {l : Label Val} (h : F.Admits d s l) : l.plainSignal = true := by
  cases l with
  | request r =>
    cases r with
    | sendSignal w T payload =>
      rw [Label.plainSignal, bne_iff_ne]
      exact (h.signals w T payload rfl).1
    | startWorkflow id name input => rfl
  | _ => rfl

/-! ## answers -/

/-- a signal is read with its payload -/
theorem reads_signal (hs : Reachable d (F.Admits d) s) {w T : String}
    (hT : T ≠ childCompletedSignalType) {o : Outcome Val}
    (h : s.reads d.toRuntime w (.signal T) o) : o = .ok (d.ofJson (F.signal w T)) := by
  obtain ⟨history, e, hl, hfind, rfl⟩ := h
  obtain ⟨he, rfl⟩ := Sys.mem_history.mp
    (mem_events_of_loaded hs hl (List.mem_of_find?_eq_some hfind))
  have hans : isReceivedSignal T e = true := List.find?_some hfind
  simp only [isReceivedSignal, Bool.and_eq_true, Bool.not_eq_true'] at hans
  obtain ⟨⟨hsignal, htype⟩, hstatus⟩ := hans
  rcases @signal_sent_to Val d s _ (fun w T payload =>
      T ≠ childCompletedSignalType ∧ payload = F.signal w T)
      (fun s w T payload h => h.signals w T payload rfl) hs e he
      (EventRecord.isSignal_iff.mp hsignal).2
    with ⟨wait, hp⟩ | ⟨T', payload, ⟨-, hpayload⟩, hp⟩ | ⟨parent, status, outcome, -, hp⟩
  · rw [hp] at hstatus
    cases wait <;> cases hstatus
  · obtain rfl : T' = T := by
      rw [hp] at htype
      exact beq_iff_eq.mp htype
    show Except.ok (d.ofJson ((e.payload.get? "payload").getD .null)) = _
    rw [hp, ← hpayload]
    rfl
  · rw [hp] at htype
    exact (hT (beq_iff_eq.mp htype).symm).elim

theorem reads_child (hs : Reachable d (F.Admits d) s) {w c : String} {o o' : Outcome Val}
    (h : s.reads d.toRuntime w (.child c) o) (h' : s.reads d.toRuntime w (.child c) o') : o = o' :=
  reads_functional (fun _ l hs _ =>
    completions_in_order (fun _ _ h => Forest.Admits.plainSignal h) hs l w) hs h h'

theorem child_of_completion (hplain : ∀ s l, ok s l → l.plainSignal = true) (hs : Reachable d ok s)
    {c : String} {e : EventRecord} (he : e ∈ s.events) (hc : isChildResultSignal c e = true) :
    ∃ i, c = childWorkflowId e.workflowId i := by
  refine committed_of_inserted (P := fun e => isChildResultSignal c e = true →
    ∃ i, c = childWorkflowId e.workflowId i) (fun s hs t x hx e he hc => ?_) hs he hc
  obtain ⟨task, alive, hth⟩ := Sys.tx?_eq_some hx
  obtain ⟨r, status, rfl, rfl, hterm, hty⟩ := completion_by hplain hs hth he hc
  have hrun : x.txn.OfRun r.workflowId r.wait? s.loaded := issues_of_thread hs hth rfl
  have hentry := (tx_ok hs hx).mem_entries he
  rcases hterm with ⟨result, parentInfo, htxn, -⟩ | ⟨message, parentInfo, htxn, -⟩ <;>
  · rw [htxn] at hrun hentry
    obtain ⟨o, -, heq | ⟨parent, hparent, heq⟩⟩ := mem_writeTerminal hentry
    · rw [heq] at hty
      cases hty
    · rw [show e.workflowId = parent.workflowId from congrArg Entry.workflowId heq]
      exact (parent_of_run hs hrun.2 hparent).2

/-! ## the runs -/

theorem straight_of_forest (hd : F.DeployedAs d) (hs : Reachable d (F.Admits d) s) {t : Nat}
    {r : Run Val} (hr : s.run? t = some r) : r.Straight Program.HandlerFree := by
  refine straight_of_loads (A := fun _ => True) (fun _ h => h) ?_ hs hr trivial
  intro s t r c program ctx hs _ hr _ hc hval
  obtain ⟨e, f, -, hf, rfl⟩ := (started_of_load hs hr hc hval).program
  rw [hd.registry t] at hf
  exact hd.handler_free _ f _ hf

/-- **Every workflow of a forest is ended under its lease.** -/
theorem ends_of_forest (hd : F.DeployedAs d) (hs : Reachable d (F.Admits d) s) :
    Reachable d (fun s l => l.plainSignal = true ∧ s.endsUnderLease l = true) s := by
  have hstays : Reachable d (fun s l => F.Admits d s l ∧ ∀ t r, l = .advance t →
      s.run? t = some r → r.staysSuspended d.toRuntime s.clock = true) s := by
    refine hs.strengthen fun s l _ hs hl _ => ⟨hl, fun t r _ hr => ?_⟩
    exact (straight_of_forest hd hs hr).staysSuspended (fun _ h => h) s.clock
  refine hstays.strengthen fun s l _ hs hl _ => ⟨hl.1.plainSignal, ?_⟩
  simp only [Sys.endsUnderLease, Option.all_eq_true]
  intro t _ r hr x hx
  obtain ⟨task, alive, hth⟩ := Sys.tx?_eq_some hx
  obtain rfl : alive = true := (txn_of_thread hs hth rfl).1
  obtain rfl : task = .run r := by
    obtain ⟨tx, alive, hth'⟩ := Sys.thread_of_run? hr
    exact (Thread.mk.inj (Option.some.inj (hth.symm.trans hth'))).1
  have hlease := lease_of_txn
    (fun _ _ _ hs h hstep => keepsLease_of_leasesLive hs hstep h.1.live _)
    (fun _ t r h hr (_ : r.workflowId = _) => h.2 t r rfl hr) hs hth rfl
  rw [hlease, beq_self_eq_true, Bool.or_true]

theorem program_of_forest {w : String} {P : Program Val}
    (hP : s.program? F.workflowRegistry w = some P) :
    ∃ name f input, F.workflowRegistry name = some f ∧ P = f input := by
  obtain ⟨row, -, hrow⟩ := Option.bind_eq_some_iff.mp hP
  obtain ⟨input, -, hinput⟩ := Option.bind_eq_some_iff.mp hrow
  obtain ⟨f, hf, rfl⟩ := Option.map_eq_some_iff.mp hinput
  exact ⟨row.name, f, input, hf, rfl⟩

theorem handlerFree_of_forest (hd : F.DeployedAs d) {w : String} {P : Program Val}
    (hP : s.program? F.workflowRegistry w = some P) : P.HandlerFree := by
  obtain ⟨name, f, input, hf, rfl⟩ := program_of_forest hP
  exact hd.handler_free name f input hf

/-- the workflows of a forest are replayed -/
theorem forest_replayed (hd : F.DeployedAs d) (hs : Reachable d (F.Admits d) s) {w : String}
    {P : Program Val} (hP : s.program? F.workflowRegistry w = some P) :
    ∃ ok', (F.replayable d w (handlerFree_of_forest hd hP)).ReplayedIn d ok'
      ∧ Reachable d ok' s := by
  refine exists_replayedIn rfl
    (fun _ _ _ hs h hstep => keepsLease_of_leasesLive hs hstep h.live w) ?_ ?_ hs
    fun t => (hd.registry t).symm ▸ hP
  · exact fun s l h t r w' i f args k v hl hr _ hn => h.bodies t r w' i f args k v hl hr hn
  · intro s hs vs wait o o' hwait h h'
    replace hwait : (P.next vs).wait? = some wait := hwait
    cases hnext : P.next vs with
    | waitForChild c =>
      rw [hnext] at hwait
      obtain rfl := Option.some.inj hwait
      exact reads_child hs h h'
    | waitForSignal T =>
      rw [hnext] at hwait
      obtain rfl := Option.some.inj hwait
      have hT : T ≠ childCompletedSignalType := by
        rintro rfl
        obtain ⟨name, f, input, hf, rfl⟩ := program_of_forest hP
        exact hd.waits name f input vs hf hnext
      exact (reads_signal hs hT h).trans (reads_signal hs hT h').symm
    | _ =>
      rw [hnext] at hwait
      cases hwait

/-! ## values -/

/-- the logs tell values of the plain computation -/
def Sys.Computes (F : Forest Val) (d : Deployment Val) (s : Sys Val) : Prop :=
  ∀ w P (hP : P.HandlerFree), s.program? F.workflowRegistry w = some P →
    ∀ vs, s.Passed (F.replayable d w hP) vs → F.Pass w P vs

theorem LeavesOpen.eventType {W : Replayable Val} {vs : List Val} {b : List Entry}
    (h : LeavesOpen W vs b) {e : Entry} (he : e ∈ b) : e.eventType ≠ .childStarted := by
  cases h with
  | activity hP hsched hfails =>
    rcases List.mem_cons.mp he with rfl | he
    · rw [(Entry.isAt_iff.mp hsched.isAt).2]
      decide
    · rw [(Entry.isAt_iff.mp (hfails.isAt e he)).2]
      decide

theorem Leaves.spawned {W : Replayable Val} {R : Wait → Outcome Val → Prop} {vs : List Val}
    {b : List Entry} {v : Val} (h : Leaves W R vs b v) {e : Entry} (he : e ∈ b)
    (hty : e.eventType = .childStarted) :
    ∃ name input, W.program.next vs = .spawnChild name (.ok input)
      ∧ IsChildStarted W.workflowId vs.length name input e := by
  cases h with
  | activity hP hsched hfails he' =>
    rw [← List.cons_append] at he
    rcases List.mem_append.mp he with he | he
    · exact (LeavesOpen.eventType (.activity hP hsched hfails) he hty).elim
    · rw [List.mem_singleton.mp he, (Entry.isAt_iff.mp he'.isAt).2] at hty
      cases hty
  | sleep hP he' =>
    rw [List.mem_singleton.mp he, (Entry.isAt_iff.mp he').2] at hty
    cases hty
  | spawnChild hP he' =>
    obtain rfl := List.mem_singleton.mp he
    exact ⟨_, _, hP, he'⟩
  | wait hP hv => cases he

/-- what the log of a parent tells of the child of step `i` -/
theorem spawned_at (hd : F.DeployedAs d) (hs : Reachable d (F.Admits d) s) {w : String}
    {P : Program Val} (hP : s.program? F.workflowRegistry w = some P) {i : Nat}
    (hrow : s.HasRow (childWorkflowId w i)) :
    ∃ us, us.length = i ∧ s.Passed (F.replayable d w (handlerFree_of_forest hd hP)) us
      ∧ ∃ name input, P.next us = .spawnChild name (.ok input)
        ∧ s.program? F.workflowRegistry (childWorkflowId w i)
          = (F.workflowRegistry name).map fun f => f input := by
  obtain ⟨ok', hW, hs'⟩ := forest_replayed hd hs hP
  have hone := countP_childStarted hs w i
  rw [show (s.row? (childWorkflowId w i)).isSome = true from hrow, if_pos rfl] at hone
  obtain ⟨e, -, he, hk⟩ := filter_of_countP hone
  have hat : e.toEntry.isAt i .childStarted = true := by
    simp only [Entry.isChildStarted, Bool.and_eq_true, beq_iff_eq] at hk
    exact Entry.isAt_iff.mpr ⟨hk.2, hk.1⟩
  obtain ⟨hindex, hty⟩ := Entry.isAt_iff.mp hat
  have hmem : e.toEntry ∈ stepEntries (s.history w) :=
    List.mem_filter.mpr ⟨List.mem_map_of_mem he, Entry.isStep_of_isAt hat⟩
  have hlog : (Replayable.grammar _ _).Rest [] (stepEntries (s.history w)) := (follow_ok hW hs').log
  obtain ⟨us, done, b, hus, hpre, heb, ⟨v, hb⟩ | ho⟩ := Grammar.Rest.steps_at .nil hlog hmem
  · have hb : Leaves _ _ us b v := hb
    obtain ⟨name, input, hnext, he'⟩ := hb.spawned heb hty
    have hlength : us.length = i := by
      have heq := hb.index e.toEntry heb
      rw [hindex] at heq
      exact_mod_cast heq.symm
    refine ⟨us, hlength, ⟨done, hus, hpre⟩, name, input, hnext, ?_⟩
    exact (spawned_ok hs he hk).program hs he'.workflowName he'.input _
  · have ho : LeavesOpen _ us b := ho
    exact (ho.eventType heb hty).elim

/-- the end of a child that has been read -/
theorem ended_of_read (hd : F.DeployedAs d) (hs : Reachable d (F.Admits d) s) {l : Label Val}
    (hstep : Step d s l s') (hcomputes : s.Computes F d) {w c : String} {v : Val}
    (h : s'.reads d.toRuntime w (.child c) (.ok v)) :
    s.HasRow w ∧ (∃ i, c = childWorkflowId w i) ∧ s.HasRow c
      ∧ ∃ child n result, s.program? F.workflowRegistry c = some child
        ∧ F.call n c child = some result ∧ v = F.ofJson result := by
  obtain ⟨history, first, hl, hfind, hv⟩ := h
  have hfirst := loaded_before hs hstep hl (List.mem_of_find?_eq_some hfind)
  have hans : isChildResultSignal c first = true := List.find?_some hfind
  obtain ⟨hmem, rfl⟩ := Sys.mem_history.mp hfirst
  obtain ⟨i, hc⟩ := child_of_completion (fun _ _ h => Forest.Admits.plainSignal h) hs hmem hans
  -- the child has ended with the outcome that the parent is told
  have hagree := outcomes_agree (fun _ _ => id) (ends_of_forest hd hs) hc
  have htold : first.payload
      ∈ ((s.history first.workflowId).filter (isChildResultSignal c)).map (·.payload) :=
    List.mem_map_of_mem (List.mem_filter.mpr ⟨hfirst, hans⟩)
  rw [hagree] at htold
  obtain ⟨e, he, hpayload⟩ := List.mem_map.mp htold
  obtain ⟨he, hterminal⟩ := List.mem_filter.mp he
  have houtcome : Except.ok v = childOutcome d.toRuntime c e :=
    hv.trans (childSignalResult_completionPayload d.toRuntime hpayload.symm)
  have hrow : s.HasRow c := by
    obtain ⟨he, hw⟩ := Sys.mem_history.mp he
    exact hw ▸ row_of_event hs he
  refine ⟨row_of_event hs hmem, ⟨i, hc⟩, hrow, ?_⟩
  have hty : e.eventType = .workflowCompleted := by
    unfold childOutcome at houtcome
    cases hety : e.eventType with
    | workflowCompleted => rfl
    | _ =>
      rw [hety] at houtcome
      cases houtcome
  obtain ⟨child, hchild⟩ := program_of_completed
    (fun t => (hd.registry t).trans (hd.registry 0).symm) hs he hty
  rw [hd.registry 0] at hchild
  obtain ⟨ok', hW, hs'⟩ := forest_replayed hd hs hchild
  obtain ⟨us, result, hpassed, hnext, hresult⟩ := completed_ok hW hs' he hty
  obtain ⟨n, hn⟩ := (hcomputes c child _ hchild us hpassed).evaluate hnext
  refine ⟨child, n, result, hchild, hn, ?_⟩
  rw [childOutcome, hty, hresult] at houtcome
  rw [Except.ok.inj houtcome, hd.ofJson]
  rfl

/-- **A child that has been waited for has computed its result.** -/
theorem deliver_of_read (hd : F.DeployedAs d) (hs : Reachable d (F.Admits d) s) {l : Label Val}
    (hl : F.Admits d s l) (hstep : s.step d l = some s') (hcomputes : s.Computes F d) {w c : String}
    {P : Program Val} (hP : s'.program? F.workflowRegistry w = some P) {vs : List Val} {v : Val}
    (hpass : F.Pass w P vs) (hnext : P.next vs = .waitForChild c)
    (h : s'.reads d.toRuntime w (.child c) (.ok v)) :
    ∃ n, F.deliver? (F.call n) w P vs = some v := by
  obtain ⟨hw, ⟨i, rfl⟩, hrow, child, n, result, hchild, hn, rfl⟩ :=
    ended_of_read hd hs (Step.of_step hstep) hcomputes h
  have hP₀ : s.program? F.workflowRegistry w = some P := by
    rw [← program?_step hs hl hstep hw]
    exact hP
  obtain ⟨us, rfl, hpassed, name, input, hspawn, hprogram⟩ := spawned_at hd hs hP₀ hrow
  have hus := hcomputes w P _ hP₀ us hpassed
  have hne : us ≠ vs := by
    rintro rfl
    cases hspawn.symm.trans hnext
  -- the child has been spawned before it is waited for
  have hlt : us <+: vs ∧ us.length < vs.length := by
    rcases hpass.prefix_or hus with ⟨ws, rfl⟩ | hpre
    · cases ws with
      | nil => exact (hne (List.append_nil vs)).elim
      | cons u ws =>
        obtain ⟨m, hm⟩ := hus vs u ⟨ws, by rw [List.append_assoc, List.singleton_append]⟩
        simp only [Forest.deliver?, hnext] at hm
        obtain ⟨child', hchild', -⟩ := Option.bind_eq_some_iff.mp hm
        have hlt := Forest.lt_of_child? hchild'
        rw [List.length_append] at hlt
        omega
    · refine ⟨hpre, Nat.lt_of_le_of_ne hpre.length_le fun heq => hne ?_⟩
      exact hpre.eq_of_length heq
  have htake : vs.take us.length = us := (List.prefix_iff_eq_take.mp hlt.1).symm
  refine ⟨n, ?_⟩
  rw [Forest.deliver?, hnext]
  show (F.child? w P vs (childWorkflowId w us.length)).bind _ = _
  rw [Forest.child?_eq hlt.2, Forest.childAt?, htake, hspawn]
  show ((F.workflowRegistry name).map fun f => f input).bind _ = _
  rw [← hprogram, hchild, Option.bind_some, hn]
  rfl

/-- **The values of the steps in a log are those of the plain computation.** -/
theorem pass_ok (hd : F.DeployedAs d) (hs : Reachable d (F.Admits d) s) : s.Computes F d := by
  refine Reach.invariant_of_reach (I := fun s => s.Computes F d) ?_ ?_ hs
  · intro w P _ hP
    cases hP
  intro s l s' hs ih hl hstep w P hP hprogram vs ⟨done, hdone, hpre⟩
  have hs' : Reachable d (F.Admits d) s' := .step l hs hl hstep
  clear hpre
  induction hdone with
  | nil => exact Forest.pass_nil
  | @snoc vs done b v _ hb hpass =>
    obtain ⟨n, hn⟩ : ∃ n, F.deliver? (F.call n) w P vs = some v := by
      replace hb : Leaves (F.replayable d w hP) _ vs b v := hb
      cases hb with
      | activity hnext _ _ _ _ hyields =>
        replace hnext : P.next vs = _ := hnext
        refine ⟨0, ?_⟩
        rw [Forest.deliver?, hnext, hyields.2 _ rfl]
      | sleep hnext =>
        replace hnext : P.next vs = _ := hnext
        refine ⟨0, ?_⟩
        rw [Forest.deliver?, hnext, ← hd.ofJson]
        rfl
      | spawnChild hnext =>
        replace hnext : P.next vs = _ := hnext
        refine ⟨0, ?_⟩
        rw [Forest.deliver?, hnext, ← hd.ofJson]
        rfl
      | wait hwait hread =>
        replace hwait : (P.next vs).wait? = _ := hwait
        cases hnext : P.next vs with
        | waitForChild c =>
          rw [hnext] at hwait
          obtain rfl := Option.some.inj hwait
          exact deliver_of_read hd hs hl hstep ih hprogram hpass hnext hread
        | waitForSignal T =>
          rw [hnext] at hwait
          obtain rfl := Option.some.inj hwait
          have hT : T ≠ childCompletedSignalType := by
            rintro rfl
            obtain ⟨name, f, input, hf, rfl⟩ := program_of_forest hprogram
            exact hd.waits name f input vs hf hnext
          refine ⟨0, ?_⟩
          rw [Forest.deliver?, hnext, ← hd.ofJson, Except.ok.inj (reads_signal hs' hT hread)]
          rfl
        | _ =>
          rw [hnext] at hwait
          cases hwait
    exact hpass.snoc hn

/-! ## results -/

theorem call_of_completed (hd : F.DeployedAs d) (hs : Reachable d (F.Admits d) s) {w : String}
    {P : Program Val} (hP : s.program? F.workflowRegistry w = some P) {e : EventRecord}
    (he : e ∈ s.history w) (hty : e.eventType = .workflowCompleted) :
    ∃ n result, F.call n w P = some result ∧ e.payload = .obj [("result", result)] := by
  obtain ⟨ok', hW, hs'⟩ := forest_replayed hd hs hP
  obtain ⟨vs, result, hpassed, hnext, hresult⟩ := completed_ok hW hs' he hty
  obtain ⟨n, hn⟩ := (pass_ok hd hs w P _ hP vs hpassed).evaluate hnext
  exact ⟨n, result, hn, hresult⟩

/-- **What is recorded is the result of the plain computation.** -/
theorem result_sequential (hd : F.DeployedAs d) (hs : Reachable d (F.Admits d) s) {w : String}
    {e : EventRecord} (he : e ∈ s.history w) (hty : e.eventType = .workflowCompleted) :
    ∃ P n result, s.program? F.workflowRegistry w = some P ∧ F.call n w P = some result
      ∧ e.payload = .obj [("result", result)] := by
  obtain ⟨P, hP⟩ := program_of_completed
    (fun t => (hd.registry t).trans (hd.registry 0).symm) hs he hty
  rw [hd.registry 0] at hP
  exact ⟨P, (call_of_completed hd hs hP he hty).imp fun n ⟨result, hn, hresult⟩ =>
    ⟨result, hP, hn, hresult⟩⟩

theorem values_sequential (hd : F.DeployedAs d) (hs : Reachable d (F.Admits d) s) {t : Nat}
    {r : Run Val} (hr : s.run? t = some r) {P : Program Val}
    (hP : s.program? F.workflowRegistry r.workflowId = some P) :
    F.Pass r.workflowId P r.values := by
  obtain ⟨ok', hW, hs'⟩ := forest_replayed hd hs hP
  exact pass_ok hd hs r.workflowId P _ hP r.values (values_ok hW hs' hr rfl)

theorem payload_agrees {d₁ d₂ : Deployment Val} {s₁ s₂ : Sys Val} (hd₁ : F.DeployedAs d₁)
    (hd₂ : F.DeployedAs d₂) (hs₁ : Reachable d₁ (F.Admits d₁) s₁)
    (hs₂ : Reachable d₂ (F.Admits d₂) s₂) {w : String}
    (hsame : s₁.program? F.workflowRegistry w = s₂.program? F.workflowRegistry w)
    {e₁ e₂ : EventRecord} (he₁ : e₁ ∈ s₁.history w) (he₂ : e₂ ∈ s₂.history w)
    (hty₁ : e₁.eventType = .workflowCompleted) (hty₂ : e₂.eventType = .workflowCompleted) :
    e₁.payload = e₂.payload := by
  obtain ⟨P, hP⟩ := program_of_completed
    (fun t => (hd₁.registry t).trans (hd₁.registry 0).symm) hs₁ he₁ hty₁
  rw [hd₁.registry 0] at hP
  obtain ⟨n₁, result₁, hn₁, hpayload₁⟩ := call_of_completed hd₁ hs₁ hP he₁ hty₁
  obtain ⟨n₂, result₂, hn₂, hpayload₂⟩ := call_of_completed hd₂ hs₂ (hsame ▸ hP) he₂ hty₂
  rw [hpayload₁, hpayload₂, Forest.call_unique hn₁ hn₂]

/-- **Two executions of a forest agree, on the result of a workflow and on what its runs are
given.** -/
theorem schedule_independent {d₁ d₂ : Deployment Val} {s₁ s₂ : Sys Val} (hd₁ : F.DeployedAs d₁)
    (hd₂ : F.DeployedAs d₂) (hs₁ : Reachable d₁ (F.Admits d₁) s₁)
    (hs₂ : Reachable d₂ (F.Admits d₂) s₂) {w : String}
    (hsame : s₁.program? F.workflowRegistry w = s₂.program? F.workflowRegistry w) :
    (∀ e₁ ∈ s₁.history w, ∀ e₂ ∈ s₂.history w, e₁.eventType = .workflowCompleted →
        e₂.eventType = .workflowCompleted → e₁.payload = e₂.payload)
      ∧ ∀ t₁ r₁ t₂ r₂, s₁.run? t₁ = some r₁ → s₂.run? t₂ = some r₂ → r₁.workflowId = w →
        r₂.workflowId = w → r₁.values <+: r₂.values ∨ r₂.values <+: r₁.values := by
  refine ⟨fun e₁ he₁ e₂ he₂ hty₁ hty₂ => ?_, fun t₁ r₁ t₂ r₂ hr₁ hr₂ hw₁ hw₂ => ?_⟩
  · exact payload_agrees hd₁ hd₂ hs₁ hs₂ hsame he₁ he₂ hty₁ hty₂
  · by_cases hdelivered : r₁.delivered = []
    · left
      rw [Run.values, hdelivered]
      exact List.nil_prefix
    · obtain ⟨tx, alive, hth⟩ := Sys.thread_of_run? hr₁
      have hstarted := (task_ok hs₁ hth).started hdelivered
      rw [hd₁.registry] at hstarted
      have hP := program_of_run hs₁ hstarted hr₁ .start
      have hP' := hP
      rw [hw₁, hsame, ← hw₂] at hP'
      have h₁ := values_sequential hd₁ hs₁ hr₁ hP
      have h₂ := values_sequential hd₂ hs₂ hr₂ hP'
      rw [hw₁] at h₁
      rw [hw₂] at h₂
      exact h₁.prefix_or h₂

def EventRecord.recordsResult (e : EventRecord) : Bool := e.eventType == .workflowCompleted

/-- the payload of the first WORKFLOW_COMPLETED event -/
def Sys.recorded? (s : Sys Val) (w : String) : Option Json :=
  ((s.history w).find? EventRecord.recordsResult).map (·.payload)

theorem completed_of_recorded {w : String} {result : Json} (h : s.recorded? w = some result) :
    ∃ e ∈ s.history w, e.eventType = .workflowCompleted ∧ e.payload = result := by
  obtain ⟨e, he, rfl⟩ := Option.map_eq_some_iff.mp h
  have hrecords : e.recordsResult = true := List.find?_some he
  exact ⟨e, List.mem_of_find?_eq_some he, beq_iff_eq.mp hrecords, rfl⟩

/-- **A root has the same result in all executions that complete it.** -/
theorem root_independent {d₁ d₂ : Deployment Val} {s₁ s₂ : Sys Val} (hd₁ : F.DeployedAs d₁)
    (hd₂ : F.DeployedAs d₂) (hs₁ : Reachable d₁ (F.Admits d₁) s₁)
    (hs₂ : Reachable d₂ (F.Admits d₂) s₂) {root : String}
    (hname : (s₁.row? root).map (·.name) = (s₂.row? root).map (·.name))
    (hinput : s₁.input? root = s₂.input? root) {result₁ result₂ : Json}
    (h₁ : s₁.recorded? root = some result₁) (h₂ : s₂.recorded? root = some result₂) :
    result₁ = result₂ := by
  have hsame : s₁.program? F.workflowRegistry root = s₂.program? F.workflowRegistry root := by
    have hprogram (s : Sys Val) : s.program? F.workflowRegistry root
        = ((s.row? root).map (·.name)).bind fun name => (s.input? root).bind fun input =>
          (F.workflowRegistry name).map fun f => f input := by
      rw [Option.bind_map]
      rfl
    rw [hprogram, hprogram, hname, hinput]
  obtain ⟨e₁, he₁, hty₁, rfl⟩ := completed_of_recorded h₁
  obtain ⟨e₂, he₂, hty₂, rfl⟩ := completed_of_recorded h₂
  exact payload_agrees hd₁ hd₂ hs₁ hs₂ hsame he₁ he₂ hty₁ hty₂

end

/-! ## two schedules

The parent spawns a child, waits for a signal and joins the child, which charges a card.
-/

def joinsNext (name : String) (vs : List Json) : Action Json :=
  if name == "c" then
    match vs with
    | [] => .activity chargeCard (.ok (.json .null))
    | amount :: _ => .ret (.ok amount)
  else
    match vs with
    | [] => .spawnChild "c" (.ok (.obj []))
    | [_] => .waitForSignal "go"
    | [_, _] => .waitForChild "w:0"
    | _ :: _ :: amount :: _ => .ret (.ok amount)

def joins : Deployment Json := .plain fun name => some fun _ => .ofValues (joinsNext name)

def joinsForest : Forest Json where
  ofJson := id
  workflowRegistry := joins.workflowRegistry 0
  body _ _ := .int 5
  signal _ _ := .null

def Sys.joinsOk (s : Sys Json) (l : Label Json) : Bool :=
  s.leasesLive && s.bodyRestored l && match l with
    | .request (.sendSignal _ signalType .null) => signalType != childCompletedSignalType
    | .request (.sendSignal _ _ _) => false
    | .body _ (.ok (.int amount)) => amount == 5
    | _ => true

def spawnsChild : List (Label Json) :=
  [.request (.startWorkflow .w "n" (.obj []))] ++ transact 0 3
    ++ [.claim "A" (newRow "w" "n" none 0)] ++ transact 1 2
    ++ [.read 1, .advance 1] ++ transact 1 7 ++ [.advance 1]

def sendsGo (t : Nat) : List (Label Json) :=
  [.request (.sendSignal "w" "go" .null), .read t] ++ transact t 4

def childStarts (t : Nat) : List (Label Json) :=
  [.claim "B" (newRow "w:0" "c" (some "w") 0)] ++ transact t 2 ++ [.read t, .advance t]

/-- thread `t` runs the child, its body fails -/
def chargeFails (t : Nat) : List (Label Json) :=
  childStarts t ++ transact t 2
    ++ [.read t, .read t, .body t (.error (.other "TimeoutError" "")), .read t]
    ++ transact t 2 ++ [.read t, .read t] ++ transact t 1 ++ [.advance t, .advance t]

def chargeReturns (t : Nat) : List (Label Json) :=
  [.body t (.ok (.int 5)), .read t] ++ transact t 2 ++ [.read t, .advance t] ++ transact t 8

/-- thread `t` runs the parent from its row on -/
def parentResumes (t : Nat) : List (Label Json) :=
  [.claim "C" (newRow "w" "n" none 0)] ++ transact t 2
    ++ [.read t, .advance t, .advance t, .advance t]

def findsAnswer (t : Nat) : List (Label Json) :=
  transact t 2 ++ [.read t] ++ transact t 2 ++ [.read t, .advance t]

def waitsLong (t : Nat) : List (Label Json) :=
  transact t 2 ++ [.read t] ++ transact t 3 ++ [.advance t, .advance t]

/-- the signal comes and the child ends before the parent waits for them -/
def eagerSchedule : List (Label Json) :=
  spawnsChild ++ sendsGo 2 ++ childStarts 3 ++ transact 3 2 ++ [.read 3, .read 3] ++ chargeReturns 3
    ++ findsAnswer 1 ++ findsAnswer 1 ++ transact 1 4

/-- the parent waits for both, and the child fails once -/
def lazySchedule : List (Label Json) :=
  spawnsChild ++ waitsLong 1 ++ chargeFails 2 ++ sendsGo 3 ++ parentResumes 4 ++ waitsLong 4
    ++ childStarts 5 ++ [.read 5] ++ chargeReturns 5 ++ parentResumes 6 ++ [.advance 6]
    ++ transact 6 4

theorem joins_deployed : joinsForest.DeployedAs joins where
  ofJson := rfl
  registry _ := rfl
  handler_free _ _ _ h := by
    obtain rfl := Option.some.inj h
    exact Program.handlerFree_ofValues _
  waits name f input vs h hnext := by
    obtain rfl := Option.some.inj h
    rw [Program.next_ofValues] at hnext
    unfold joinsNext at hnext
    split at hnext
    · match vs with
      | [] => cases hnext
      | _ :: _ => cases hnext
    · match vs with
      | [] => cases hnext
      | [_] => exact absurd (Action.waitForSignal.inj hnext) (by decide)
      | [_, _] => cases hnext
      | _ :: _ :: _ :: _ => cases hnext

theorem joins_admits {s : Sys Json} {l : Label Json} (h : s.joinsOk l = true) :
    joinsForest.Admits joins s l := by
  simp only [Sys.joinsOk, Bool.and_eq_true] at h
  obtain ⟨⟨hlive, hbody⟩, h⟩ := h
  refine ⟨hlive, ?_, ?_⟩
  · rintro w T payload rfl
    cases payload with
    | null => exact ⟨bne_iff_ne.mp h, rfl⟩
    | _ => cases h
  · rintro t r w i f args k v rfl hr hn
    refine ⟨plain_of_bodyRestored hbody hr hn, fun input _ => ?_⟩
    cases v with
    | int amount => exact congrArg Json.int (beq_iff_eq.mp h)
    | _ => cases hbody

/-- the root has been started as `n` and has recorded the number `amount` -/
def Sys.rootRecords (s : Sys Json) (amount : Int) : Bool :=
  (s.row? "w").any (·.name == "n")
    && (match s.input? "w" with
      | some (.obj []) => true
      | _ => false)
    && match s.recorded? "w" with
      | some (.obj [(key, .int n)]) => key == "result" && n == amount
      | _ => false

theorem Sys.rootRecords_spec {s : Sys Json} {amount : Int} (h : s.rootRecords amount = true) :
    (s.row? "w").map (·.name) = some "n" ∧ s.input? "w" = some (.obj [])
      ∧ s.recorded? "w" = some (.obj [("result", .int amount)]) := by
  simp only [Sys.rootRecords, Bool.and_eq_true] at h
  obtain ⟨⟨hname, hinput⟩, hresult⟩ := h
  refine ⟨?_, ?_, ?_⟩
  · obtain ⟨row, hrow, hname⟩ := (Option.any_eq_true _ _).mp hname
    rw [hrow, Option.map_some, beq_iff_eq.mp hname]
  · split at hinput
    · assumption
    · cases hinput
  · split at hresult
    · rename_i heq
      obtain ⟨hkey, hn⟩ := Bool.and_eq_true_iff.mp hresult
      rw [heq, beq_iff_eq.mp hkey, beq_iff_eq.mp hn]
    · cases hresult

theorem joins_reached {ls : List (Label Json)}
    (h : (follow (Sys.step joins) Sys.joinsOk Sys.initial ls).any (·.rootRecords 5) = true) :
    ∃ s, Reachable joins (joinsForest.Admits joins) s ∧ (s.row? "w").map (·.name) = some "n"
      ∧ s.input? "w" = some (.obj [])
      ∧ s.recorded? "w" = some (.obj [("result", .int 5)]) := by
  obtain ⟨s, hs, h⟩ := Reach.exists_of_follow _ h
  exact ⟨s, hs.mono fun _ _ => joins_admits, Sys.rootRecords_spec h⟩

theorem joins_program {s : Sys Json} (hname : (s.row? "w").map (·.name) = some "n")
    (hinput : s.input? "w" = some (.obj [])) :
    s.program? joinsForest.workflowRegistry "w" = some (.ofValues (joinsNext "n")) := by
  obtain ⟨row, hrow, hname⟩ := Option.map_eq_some_iff.mp hname
  rw [Sys.program?, hrow, hinput, Option.bind_some, Option.bind_some, hname]
  rfl

theorem eager_ends :
    (follow (Sys.step joins) Sys.joinsOk Sys.initial eagerSchedule).any (·.rootRecords 5) = true := by
  decide +kernel

theorem lazy_ends :
    (follow (Sys.step joins) Sys.joinsOk Sys.initial lazySchedule).any (·.rootRecords 5) = true := by
  decide +kernel

theorem result_sequential_joined : ∃ (s : Sys Json) (e : EventRecord) (P : Program Json) (n : Nat)
    (result : Json), e ∈ s.history "w" ∧ joinsForest.call n "w" P = some result
      ∧ e.payload = .obj [("result", result)] := by
  obtain ⟨s, hs, -, -, hresult⟩ := joins_reached lazy_ends
  obtain ⟨e, he, hty, -⟩ := completed_of_recorded hresult
  obtain ⟨P, n, result, -, hn, hpayload⟩ := result_sequential joins_deployed hs he hty
  exact ⟨s, e, P, n, result, he, hn, hpayload⟩

theorem schedule_independent_joined : ∃ (s₁ s₂ : Sys Json) (e₁ e₂ : EventRecord),
    e₁ ∈ s₁.history "w" ∧ e₂ ∈ s₂.history "w" ∧ e₁.eventType = .workflowCompleted
      ∧ e₂.eventType = .workflowCompleted ∧ e₁.payload = e₂.payload := by
  obtain ⟨s₁, hs₁, hname₁, hinput₁, h₁⟩ := joins_reached eager_ends
  obtain ⟨s₂, hs₂, hname₂, hinput₂, h₂⟩ := joins_reached lazy_ends
  obtain ⟨e₁, he₁, hty₁, -⟩ := completed_of_recorded h₁
  obtain ⟨e₂, he₂, hty₂, -⟩ := completed_of_recorded h₂
  have hsame := (joins_program hname₁ hinput₁).trans (joins_program hname₂ hinput₂).symm
  exact ⟨s₁, s₂, e₁, e₂, he₁, he₂, hty₁, hty₂,
    (schedule_independent joins_deployed joins_deployed hs₁ hs₂ hsame).1 e₁ he₁ e₂ he₂ hty₁ hty₂⟩

theorem root_independent_joined : ∃ (s₁ s₂ : Sys Json) (result₁ result₂ : Json),
    s₁.recorded? "w" = some result₁ ∧ s₂.recorded? "w" = some result₂ ∧ result₁ = result₂ := by
  obtain ⟨s₁, hs₁, hname₁, hinput₁, h₁⟩ := joins_reached eager_ends
  obtain ⟨s₂, hs₂, hname₂, hinput₂, h₂⟩ := joins_reached lazy_ends
  exact ⟨s₁, s₂, _, _, h₁, h₂, root_independent joins_deployed joins_deployed hs₁ hs₂
    (hname₁.trans hname₂.symm) (hinput₁.trans hinput₂.symm) h₁ h₂⟩

/-! ## a signal of the reserved type

The root joins its child, which returns 5, and waits for a signal of the reserved type; a client
sends the signal once, and its payload looks like a completion of the child.
-/

def joinsReservedNext (name : String) (vs : List Json) : Action Json :=
  if name == "c" then .ret (.ok (.int 5))
  else
    match vs with
    | [] => .spawnChild "c" (.ok (.obj []))
    | [_] => .waitForChild "w:0"
    | [_, _] => .waitForSignal childCompletedSignalType
    | _ :: amount :: _ => .ret (.ok amount)

def joinsReserved : Deployment Json :=
  .plain fun name => some fun _ => .ofValues (joinsReservedNext name)

def sendsReserved (t : Nat) : List (Label Json) :=
  [.request (.sendSignal "w" childCompletedSignalType (.obj [("child_id", .str "w:0"),
    ("status", .str "completed"), ("result", .int 7)])), .read t] ++ transact t 4

/-- the signal comes before the child is waited for -/
def reservedFirst : List (Label Json) :=
  spawnsChild ++ sendsReserved 2 ++ findsAnswer 1 ++ findsAnswer 1 ++ transact 1 4

/-- the signal comes once the child has been waited for -/
def reservedLast : List (Label Json) :=
  spawnsChild ++ childStarts 2 ++ transact 2 8 ++ findsAnswer 1 ++ sendsReserved 3 ++ findsAnswer 1
    ++ transact 1 4

def Label.isSignal : Label Json → Bool
  | .request (.sendSignal _ _ _) => true
  | _ => false

/-- In two executions the workers do the same, and the one signal that the forest waits for is sent
once, with the same payload; the root that has been sent it early records 7, the other one 5. -/
theorem root_dependent : ∃ s₁ s₂ : Sys Json,
    (∀ name f input, joinsReserved.workflowRegistry 0 name = some f → (f input).HandlerFree)
      ∧ follow (Sys.step joinsReserved) (fun s _ => s.leasesLive) Sys.initial reservedFirst = some s₁
      ∧ follow (Sys.step joinsReserved) (fun s _ => s.leasesLive) Sys.initial reservedLast = some s₂
      ∧ reservedFirst.filter Label.isSignal = [.request (.sendSignal "w" childCompletedSignalType
        (.obj [("child_id", .str "w:0"), ("status", .str "completed"), ("result", .int 7)]))]
      ∧ reservedLast.filter Label.isSignal = reservedFirst.filter Label.isSignal
      ∧ (s₁.row? "w").map (·.name) = (s₂.row? "w").map (·.name) ∧ s₁.input? "w" = s₂.input? "w"
      ∧ s₁.recorded? "w" = some (.obj [("result", .int 7)])
      ∧ s₂.recorded? "w" = some (.obj [("result", .int 5)]) := by
  have h₁ : (follow (Sys.step joinsReserved) (fun s _ => s.leasesLive) Sys.initial
      reservedFirst).any (·.rootRecords 7) = true := by
    decide +kernel
  have h₂ : (follow (Sys.step joinsReserved) (fun s _ => s.leasesLive) Sys.initial
      reservedLast).any (·.rootRecords 5) = true := by
    decide +kernel
  obtain ⟨s₁, hs₁, h₁⟩ := (Option.any_eq_true _ _).mp h₁
  obtain ⟨s₂, hs₂, h₂⟩ := (Option.any_eq_true _ _).mp h₂
  obtain ⟨hname₁, hinput₁, hresult₁⟩ := Sys.rootRecords_spec h₁
  obtain ⟨hname₂, hinput₂, hresult₂⟩ := Sys.rootRecords_spec h₂
  refine ⟨s₁, s₂, fun name f input hf => ?_, hs₁, hs₂, rfl, rfl, hname₁.trans hname₂.symm,
    hinput₁.trans hinput₂.symm, hresult₁, hresult₂⟩
  obtain rfl := Option.some.inj hf
  exact Program.handlerFree_ofValues _

end TemporalLight
