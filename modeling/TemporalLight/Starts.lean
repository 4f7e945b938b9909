import TemporalLight.Children

/-!
# A log begins with its STARTED event

The id of an event is drawn when it is inserted, before the statement checks the foreign key and
long before the commit, so the order of a log rests on what the writers know: a run has a row, a
parent has one since it wrote CHILD_STARTED, and `send_signal` has read the row before it writes.

* `row_of_insert`  the row is there before an event is inserted, the STARTED event apart
* `log_begins`     hence a log is empty, or it begins with the one STARTED event
-/

namespace TemporalLight
open Runs Resumption

section
variable {Val : Type} {d : Deployment Val} {s s' : Sys Val} {ok : Sys Val → Label Val → Prop}

/-! ## what a request has read -/

/-- the row that a reply shows -/
def Call.Shows (known : String → Prop) : (q : Call Val) → q.Reply → Prop
  | .getWorkflow w, (row : Option WorkflowRecord) => row.isSome = true → known w
  | _, _ => True

/-- the rules for code that only signals workflows it has seen -/
def requestRules : Rules (Call Val) Call.Reply (String → Prop) where
  rely known known' := ∀ w, known w → known' w
  ask q known := ∀ w signalType payload,
    q = .transaction (.writeSignalAndWakeWorkflow w signalType payload) → known w
  answer q reply known known' := (∀ w, known w → known' w) ∧ q.Shows known' reply
  keep _ _ := True
  rely_refl _ _ := id
  rely_trans h h' w hw := h' w (h w hw)

theorem wp_request_pure {α : Type} {a : α} {known : String → Prop} :
    wp (requestRules : Rules (Call Val) Call.Reply _) (.pure a) (fun _ _ => True) known :=
  fun _ _ => trivial

theorem wp_handleRequest (r : Request) (known : String → Prop) :
    wp requestRules (handleRequest r : Engine Val Response).run (fun _ _ => True) known := by
  cases r with
  | startWorkflow id name input =>
    refine fun known₁ _ => ⟨nofun, fun reply known₂ _ => ⟨trivial, ?_⟩⟩
    cases reply <;> exact wp_request_pure
  | sendSignal w signalType payload =>
    refine fun known₁ _ => ⟨nofun, fun row known₂ ⟨_, hshows⟩ => ⟨trivial, ?_⟩⟩
    cases row with
    | none => exact wp_request_pure
    | some record =>
      replace hshows : known₂ w := hshows rfl
      show wp requestRules (ExceptT.run (if _ then _ else _)) _ known₂
      split
      · exact wp_request_pure
      · refine fun known₃ h₃ => ⟨?_, fun reply known₄ _ => ⟨trivial, ?_⟩⟩
        · rintro _ _ _ heq
          obtain ⟨rfl, -, -⟩ := Txn.writeSignalAndWakeWorkflow.inj (Call.transaction.inj heq)
          exact h₃ _ hshows
        · cases reply <;> exact wp_request_pure

/-- the workflows that have a row -/
def Sys.HasRow (s : Sys Val) (w : String) : Prop := (s.row? w).isSome = true

/-- the task that has become a request was the request before the reply -/
theorem Task.request_of_next {task : Task Val} {t : Nat} {q : Call Val} {k : q.Reply → Task Val}
    (hq : task.next? d t = some ⟨q, k⟩) {reply : q.Reply} {r : Request} {c : Engine Val Response}
    (h : k reply = .request r c) :
    ∃ (c₀ : Engine Val Response) (k₀ : q.Reply → Engine Val Response),
      task = .request r c₀ ∧ c₀.run.pending? = some ⟨q, k₀⟩ ∧ c = k₀ reply := by
  cases task with
  | request r₀ c₀ =>
    obtain ⟨⟨q₀, k₀⟩, hn, hk⟩ := Option.map_eq_some_iff.mp hq
    obtain ⟨rfl, hk⟩ := Sigma.mk.inj hk
    obtain rfl := eq_of_heq hk
    obtain ⟨rfl, rfl⟩ := Task.request.inj h
    exact ⟨c₀, k₀, rfl, hn, rfl⟩
  | claiming worker row =>
    obtain ⟨rfl, hk⟩ := Sigma.mk.inj (Option.some.inj hq)
    obtain rfl := eq_of_heq hk
    cases h
  | run r₀ =>
    obtain ⟨n, -, hk⟩ := Option.map_eq_some_iff.mp hq
    obtain ⟨rfl, hk⟩ := Sigma.mk.inj hk
    obtain rfl := eq_of_heq hk
    cases h
  | heartbeat w c₀ =>
    obtain ⟨n, -, hk⟩ := Option.map_eq_some_iff.mp hq
    obtain ⟨rfl, hk⟩ := Sigma.mk.inj hk
    obtain rfl := eq_of_heq hk
    cases h

/-- a request keeps to its rules -/
theorem request_knows (hs : Reachable d ok s) {t : Nat} {r : Request} {c : Engine Val Response}
    {tx : Option Tx} {alive : Bool} (hth : s.threads[t]? = some ⟨.request r c, tx, alive⟩) :
    wp requestRules c.run (fun _ _ => True) s.HasRow := by
  refine Reach.invariant_of_reach (I := fun s : Sys Val => ∀ t r c tx alive,
    s.threads[t]? = some ⟨.request r c, tx, alive⟩ →
      wp requestRules c.run (fun _ _ => True) s.HasRow)
    (by simp [Sys.initial]) ?_ hs t r c tx alive hth
  intro s l s' hr ih _ hl t r c tx alive hth
  have hstep := Step.of_step hl
  have hkeep : ∀ w, s.HasRow w → s'.HasRow w := fun w => hstep.row?_isSome
  rcases hstep.task_cases hth with ⟨⟨task, tx₀, alive₀⟩, hth₀, htask⟩ | ⟨-, hnew⟩
      | ⟨task, tx₀, q, k, reply, hth₀, hq, htask, hans⟩ | ⟨_, _, -, -, -, htask⟩
  · obtain rfl : .request r c = task := htask
    exact wp_rely hkeep (ih t r c tx₀ alive₀ hth₀)
  · cases hnew
    exact wp_handleRequest r _
  · obtain ⟨c₀, k₀, rfl, hn, rfl⟩ := Task.request_of_next hq htask.symm
    have hwp := ih t r c₀ tx₀ true hth₀
    rw [Resumption.pending?_eq_some hn] at hwp
    refine (wp_answer hwp ⟨hkeep, ?_⟩).2
    cases hans with
    | commit => trivial
    | @read _ _ th hreply =>
      cases q with
      | getWorkflow w =>
        intro hsome
        rw [← Option.some.inj hreply] at hsome
        exact hstep.row?_isSome hsome
      | _ => trivial
    | body => trivial
  · cases htask

/-! ## the row is there first -/

theorem row_of_parent (hs : Reachable d ok s) {t : Nat} {r : Run Val} (hr : s.run? t = some r)
    {parentInfo : Option ParentInfo} (h : ParentOk r.workflowId s.loaded parentInfo)
    {parent : ParentInfo} (hp : parentInfo = some parent) : s.HasRow parent.workflowId := by
  obtain ⟨-, i, hi⟩ := parent_of_run hs h hp
  have hone := countP_childStarted hs parent.workflowId i
  rw [← hi, row_of_run hs hr, if_pos rfl] at hone
  obtain ⟨e, -, he, -⟩ := filter_of_countP hone
  obtain ⟨he, hw⟩ := Sys.mem_history.mp he
  exact hw ▸ row_of_event hs he

theorem mem_writeTerminal_insert {w w' : String} {ty ty' : EventType} {i : Int} {n : String}
    {payload : Except PyExc Json} {outcome : Except PyExc (String × Json)} {status : WorkflowStatus}
    {parentInfo : Option ParentInfo} {childStatus : String}
    (h : Stmt.insertEvent w' i n ty' payload
      ∈ writeTerminalWorkflowEvent w ty outcome status parentInfo childStatus) :
    w' = w ∨ ∃ parent, parentInfo = some parent ∧ w' = parent.workflowId := by
  unfold writeTerminalWorkflowEvent insertInto at h
  cases parentInfo with
  | none =>
    simp only [List.append_nil, List.mem_append, List.mem_cons, List.not_mem_nil, or_false,
      reduceCtorEq, Stmt.insertEvent.injEq] at h
    exact .inl h.1
  | some parent =>
    simp only [List.mem_append, List.mem_cons, List.not_mem_nil, or_false, reduceCtorEq,
      Stmt.insertEvent.injEq] at h
    rcases h with h | h
    · exact .inl h.1
    · exact .inr ⟨parent, rfl, h.1⟩

/-- **The row of a workflow is there before an event is inserted, but for the STARTED event.** -/
theorem row_of_insert (hs : Reachable d ok s) {t : Nat} {task : Task Val} {x : Tx} {alive : Bool}
    (hth : s.threads[t]? = some ⟨task, some x, alive⟩) {w : String} {i : Int} {n : String}
    {ty : EventType} {payload : Except PyExc Json}
    (hmem : Stmt.insertEvent w i n ty payload ∈ x.txn.statements) : ty = .started ∨ s.HasRow w := by
  rcases (issues_of_thread hs hth rfl).cases with ⟨worker, row, -, htxn⟩ | ⟨r, rfl, hrun⟩
      | ⟨id, name, input, c, -, htxn⟩ | ⟨w', T, p, c, rfl, htxn⟩ | ⟨w', c, -, htxn⟩
  · rw [htxn] at hmem
    simp [Txn.statements] at hmem
  · have hrow : s.HasRow r.workflowId := row_of_run hs (Sys.run?_eq hth)
    have hends {parentInfo : Option ParentInfo} (hparent : ParentOk r.workflowId s.loaded parentInfo)
        (h : w = r.workflowId ∨ ∃ parent, parentInfo = some parent ∧ w = parent.workflowId) :
        s.HasRow w := by
      rcases h with rfl | ⟨parent, hp, rfl⟩
      · exact hrow
      · exact row_of_parent hs (Sys.run?_eq hth) hparent hp
    cases htxn : x.txn with
    | insertEvent w' j m ty' p =>
      rw [htxn] at hmem hrun
      simp only [Txn.statements, insertInto, List.mem_cons, List.not_mem_nil, or_false, reduceCtorEq,
        Stmt.insertEvent.injEq] at hmem
      obtain ⟨rfl, -⟩ := hmem
      exact .inr (hrun.1 ▸ hrow)
    | createChildWorkflow p c name input j =>
      rw [htxn] at hmem hrun
      simp only [Txn.statements, insertInto, List.mem_append, List.mem_cons, List.not_mem_nil,
        or_false, reduceCtorEq, false_or, Stmt.insertEvent.injEq] at hmem
      rcases hmem with ⟨-, -, -, rfl, -⟩ | ⟨rfl, -⟩
      · exact .inl rfl
      · exact .inr (hrun.1 ▸ hrow)
    | completeWorkflow w' result parentInfo =>
      rw [htxn] at hmem hrun
      obtain ⟨rfl, hparent⟩ := hrun
      exact .inr (hends hparent (mem_writeTerminal_insert hmem))
    | failWorkflow w' message parentInfo =>
      rw [htxn] at hmem hrun
      obtain ⟨rfl, hparent⟩ := hrun
      exact .inr (hends hparent (mem_writeTerminal_insert hmem))
    | markWorkflowWaiting w' wait =>
      rw [htxn] at hmem
      simp [Txn.statements] at hmem
    | updateWorkflowRunAt w' time =>
      rw [htxn] at hmem
      simp [Txn.statements] at hmem
    | _ =>
      rw [htxn] at hrun
      cases hrun
  · rw [htxn] at hmem
    simp only [Txn.statements, insertInto, List.mem_append, List.mem_cons, List.not_mem_nil,
      or_false, reduceCtorEq, false_or, Stmt.insertEvent.injEq] at hmem
    exact .inl hmem.2.2.2.1
  · obtain ⟨-, k, hk⟩ := txn_of_thread hs hth rfl
    obtain ⟨m, hm, hmk⟩ := Option.map_eq_some_iff.mp hk
    have hwp := request_knows hs hth
    rw [Resumption.pending?_eq_some hm] at hwp
    have hrow : s.HasRow w' :=
      wp_ask hwp w' T p (by rw [congrArg Sigma.fst hmk, htxn])
    rw [htxn] at hmem
    simp only [Txn.statements, insertInto, List.mem_append, List.mem_cons, List.not_mem_nil,
      or_false, reduceCtorEq, Stmt.insertEvent.injEq] at hmem
    exact .inr (hmem.1 ▸ hrow)
  · rw [htxn] at hmem
    simp [Txn.statements] at hmem

/-! ## the STARTED event comes first -/

/-- a STARTED event of the same workflow that is not younger -/
def Starts (e₀ e : EventRecord) : Prop :=
  e₀.toEntry.isStarted = true ∧ e₀.workflowId = e.workflowId ∧ e₀.eventId ≤ e.eventId

theorem started_of_row (hs : Reachable d ok s) {w : String} (h : s.HasRow w) :
    ∃ e ∈ s.history w, e.toEntry.isStarted = true := by
  have hone := countP_started hs w
  rw [if_pos (show (s.row? w).isSome = true from h)] at hone
  obtain ⟨e, -, he, hk⟩ := filter_of_countP hone
  exact ⟨e, he, hk⟩

/-- an event that is inserted comes after its STARTED event -/
theorem starts_of_inserted (hs : Reachable d ok s) {t : Nat} {x : Tx} (hx : s.tx? t = some x)
    {e : EventRecord} (he : e ∈ x.inserted) :
    (∃ e₀ ∈ s.events, Starts e₀ e) ∨ ∃ e₀ ∈ x.inserted, Starts e₀ e := by
  refine Reach.invariant_of_reach (I := fun s : Sys Val => ∀ t x, s.tx? t = some x →
    ∀ e ∈ x.inserted, (∃ e₀ ∈ s.events, Starts e₀ e) ∨ ∃ e₀ ∈ x.inserted, Starts e₀ e)
    ?_ ?_ hs t x hx e he
  · intro t x hx
    rw [Sys.initial_tx?] at hx
    cases hx
  intro s l s' hr ih _ hl t x hx e he
  have hstep := Step.of_step hl
  have hmono {x x' : Tx} (hsub : x.inserted ⊆ x'.inserted)
      (h : (∃ e₀ ∈ s.events, Starts e₀ e) ∨ ∃ e₀ ∈ x.inserted, Starts e₀ e) :
      (∃ e₀ ∈ s'.events, Starts e₀ e) ∨ ∃ e₀ ∈ x'.inserted, Starts e₀ e := by
    rcases h with ⟨e₀, he₀, h⟩ | ⟨e₀, he₀, h⟩
    · exact .inl ⟨e₀, hstep.mem_events he₀, h⟩
    · exact .inr ⟨e₀, hsub he₀, h⟩
  rcases hstep.tx_cases hx with ⟨hx, -⟩ | ⟨_, _, _, -, -, -, rfl⟩
      | ⟨x₀, stmt, rest, -, hx₀, hrest, hafter⟩
  · exact hmono (List.Subset.refl _) (ih t x hx e he)
  · cases he
  rcases Tx.after_cases hafter with ⟨_, -, rfl⟩ | ⟨-, rfl⟩ | ⟨hp, rfl⟩
  · cases he
  · exact hmono (List.Subset.refl _) (ih t x₀ hx₀ e he)
  have hsub : x₀.inserted ⊆ (x₀.proceed stmt rest s.nextId (s.effect d t x₀ stmt)).inserted :=
    List.subset_append_left _ _
  rcases List.mem_append.mp he with he | he
  · exact hmono hsub (ih t x₀ hx₀ e he)
  · obtain ⟨entry, hentry, rfl⟩ := List.mem_map.mp he
    have hevent : stmt.event? = some entry := by
      rw [← (Sys.effect_writes hp).1]
      simpa using hentry
    cases stmt with
    | insertEvent w i n ty payload =>
      obtain ⟨task, alive, hth⟩ := Sys.tx?_eq_some hx₀
      have hmem : Stmt.insertEvent w i n ty payload ∈ x₀.txn.statements := by
        rw [← (tx_ok hr hx₀).order ((tx_ok hr hx₀).result_of_rest hrest), hrest]
        exact List.mem_append_right _ List.mem_cons_self
      cases payload with
      | error error => cases hevent
      | ok payload =>
        obtain rfl := Option.some.inj hevent
        rcases row_of_insert hr hth hmem with rfl | hrow
        · exact .inr ⟨_, List.mem_append_right _ he, rfl, rfl, le_rfl⟩
        · obtain ⟨e₀, he₀, hk⟩ := started_of_row hr hrow
          obtain ⟨he₀, hw₀⟩ := Sys.mem_history.mp he₀
          exact .inl ⟨e₀, hstep.mem_events he₀, hk, hw₀, le_of_lt ((ids_ok hr).committed_lt e₀ he₀)⟩
    | _ => cases hevent

theorem starts_ok (hs : Reachable d ok s) {e : EventRecord} (he : e ∈ s.events) :
    ∃ e₀ ∈ s.events, Starts e₀ e := by
  refine Reach.invariant_of_reach (I := fun s : Sys Val => ∀ e ∈ s.events, ∃ e₀ ∈ s.events,
    Starts e₀ e) (by simp [Sys.initial]) ?_ hs e he
  intro s l s' hr ih _ hl e he
  have hstep := Step.of_step hl
  have hold (h : ∃ e₀ ∈ s.events, Starts e₀ e) : ∃ e₀ ∈ s'.events, Starts e₀ e := by
    obtain ⟨e₀, he₀, h⟩ := h
    exact ⟨e₀, hstep.mem_events he₀, h⟩
  rcases hstep.tables_cases with htab | ⟨t, task, x, txn, k, -, hth, -, -, hs'⟩
  · rw [htab.events] at he
    exact hold (ih e he)
  · have hx := Sys.tx?_eq hth
    have hmem : ∀ a, a ∈ s'.events ↔ a ∈ s.events ∨ a ∈ x.inserted := fun a => by
      rw [hs']
      exact mem_events_publish (t := t)
    rcases (hmem e).mp he with he | he
    · exact hold (ih e he)
    · rcases starts_of_inserted hr hx he with h | ⟨e₀, he₀, h⟩
      · exact hold h
      · exact ⟨e₀, (hmem e₀).mpr (.inr he₀), h⟩

theorem started_first (hs : Reachable d ok s) {w : String} {e : EventRecord}
    {rest : List EventRecord} (hlog : s.history w = e :: rest) :
    e.eventType = .started ∧ ∀ e' ∈ rest, e'.eventType ≠ .started := by
  have hcount := countP_started hs w
  have he : e ∈ s.history w := hlog ▸ List.mem_cons_self
  obtain ⟨hmem, hw⟩ := Sys.mem_history.mp he
  rw [if_pos (hw ▸ row_of_event hs hmem)] at hcount
  obtain ⟨e₀, he₀, hk, hw₀, hle⟩ := starts_ok hs hmem
  have he₀ : e₀ ∈ s.history w := Sys.mem_history.mpr ⟨he₀, hw₀.trans hw⟩
  -- the ids grow along the log
  have hsorted : (s.history w).Pairwise fun a b => a.eventId < b.eventId :=
    (ids_ok hs).sorted.filter _
  rw [hlog] at he₀ hsorted hcount
  obtain rfl : e₀ = e := by
    rcases List.mem_cons.mp he₀ with heq | hrest
    · exact heq
    · have := List.rel_of_pairwise_cons hsorted hrest
      omega
  rw [List.countP_cons_of_pos (p := fun e : EventRecord => e.toEntry.isStarted) hk] at hcount
  have hnone := List.countP_eq_zero.mp (Nat.succ.inj hcount)
  have hty (a : EventRecord) : a.toEntry.isStarted = true ↔ a.eventType = .started := by
    simp [Entry.isStarted]
  exact ⟨(hty e₀).mp hk, fun e' he' hst => hnone e' he' ((hty e').mpr hst)⟩

/-- **A log is empty, or it begins with the one STARTED event of its workflow.** -/
theorem log_begins (hs : Reachable d (fun _ _ => True) s) (w : String) :
    ((s.row? w).isSome = true ↔ s.history w ≠ [])
    ∧ ∀ e rest, s.history w = e :: rest →
      e.eventType = .started ∧ ∀ e' ∈ rest, e'.eventType ≠ .started := by
  refine ⟨⟨fun hrow hnil => ?_, fun hne => ?_⟩, fun e rest => started_first hs⟩
  · obtain ⟨e, he, -⟩ := started_of_row hs hrow
    rw [hnil] at he
    cases he
  · obtain ⟨e, he⟩ := List.exists_mem_of_ne_nil _ hne
    obtain ⟨he, hw⟩ := Sys.mem_history.mp he
    exact hw ▸ row_of_event hs he

end

/-- the log of a child that has just been created -/
theorem log_begins_once : ∃ (s : Sys Json) (e : EventRecord) (rest : List EventRecord),
    s.history "w:0" = e :: rest ∧ e.eventType = .started
      ∧ ∀ e' ∈ rest, e'.eventType ≠ .started := by
  have hrun : (follow (Sys.step spawns) (fun _ _ => true) Sys.initial createsChild).any
      (fun s => (s.row? "w:0").isSome) = true := by
    decide +kernel
  obtain ⟨s, hs, hrow⟩ := Reach.exists_of_follow _ hrun
  obtain ⟨hne, hbegins⟩ := log_begins (hs.mono fun _ _ _ => trivial) "w:0"
  obtain ⟨e, rest, hlog⟩ := List.exists_cons_of_ne_nil (hne.mp hrow)
  exact ⟨s, e, rest, hlog, hbegins e rest hlog⟩

end TemporalLight
