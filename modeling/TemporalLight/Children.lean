import TemporalLight.Ownership

/-!
# Exactly one child per spawn step

The id of a child is the id of its parent, a colon and the step index; the id of a root has no
colon.  The row of a child, its STARTED event and the parent's CHILD_STARTED event are written by
one transaction, and a second insertion of the row is skipped.

* `childWorkflowId_inj`    two steps never share a child;
* `countP_eq_row`          events that are written together with a row are as many as the row;
* `row_parent`             every row is a root or a child of its parent;
* `one_child_per_step`     hence a spawn step has one child, and every `spawn_child` returns it.
-/

namespace TemporalLight
open Runs

/-! ## ids -/

theorem colon_mem_childWorkflowId (p : String) (i : Nat) :
    ':' ∈ (childWorkflowId p i).toList := by
  simp [childWorkflowId]

theorem colon_notMem_digits (i : Nat) : ':' ∉ Nat.toDigits 10 i := by
  intro h
  have := Nat.isDigit_of_mem_toDigits (by decide) (by decide) h
  simp [Char.isDigit] at this

theorem append_colon_inj {xs ys a b : List Char} (ha : ':' ∉ a) (hb : ':' ∉ b)
    (h : xs ++ ':' :: a = ys ++ ':' :: b) : xs = ys ∧ a = b := by
  rcases List.append_eq_append_iff.mp h with ⟨c, rfl, hc⟩ | ⟨c, rfl, hc⟩
  · cases c with
    | nil => exact ⟨by simp, (List.cons.inj hc).2⟩
    | cons x c =>
      obtain ⟨rfl, rfl⟩ := List.cons.inj hc
      exact absurd (by simp) ha
  · cases c with
    | nil => exact ⟨by simp, (List.cons.inj hc).2.symm⟩
    | cons x c =>
      obtain ⟨rfl, rfl⟩ := List.cons.inj hc
      exact absurd (by simp) hb

/-- **Two steps never share a child**, at any depth of the forest. -/
theorem childWorkflowId_inj {p q : String} {i j : Nat}
    (h : childWorkflowId p i = childWorkflowId q j) : p = q ∧ i = j := by
  have hlist := congrArg String.toList h
  simp only [childWorkflowId, String.toList_append, List.append_assoc] at hlist
  obtain ⟨hp, hi⟩ := append_colon_inj (colon_notMem_digits i) (colon_notMem_digits j)
    (by simpa [Nat.toString_eq_repr, Nat.toList_repr] using hlist)
  refine ⟨String.toList_inj.mp hp, ?_⟩
  rw [← Nat.ofDigitChars_ten_toDigits (n := i), hi, Nat.ofDigitChars_ten_toDigits]

theorem root_ne_child (id : Uuid) (p : String) (i : Nat) : id.text ≠ childWorkflowId p i := by
  intro h
  exact id.no_colon (h ▸ colon_mem_childWorkflowId p i)

/-! ## rows and events that are written together -/

def Entry.isStarted (e : Entry) : Bool := e.eventType == .started

def Entry.isChildStarted (i : Nat) (e : Entry) : Bool :=
  e.eventType == .childStarted && e.stepIndex == (i : Int)

section
variable {Val : Type} {d : Deployment Val} {s s' : Sys Val} {ok : Sys Val → Label Val → Prop}

/-- the transactions that insert a row, or an event of the two kinds above -/
theorem Task.Issues.creates {L : Loaded} {task : Task Val} {txn : Txn} (h : task.Issues L txn)
    (hpay : ∀ w i n ty error, Stmt.insertEvent w i n ty (.error error) ∉ txn.statements) :
    (∃ (id : Uuid) (name : String), txn.statements.filterMap Stmt.created? = [(id.text, name, none)]
      ∧ ∃ payload, txn.statements.filterMap Stmt.event?
        = [⟨id.text, -1, "workflow", .started, payload⟩])
    ∨ (∃ p i name, txn.statements.filterMap Stmt.created? = [(childWorkflowId p i, name, some p)]
      ∧ ∃ payload payload', txn.statements.filterMap Stmt.event?
        = [⟨childWorkflowId p i, -1, "workflow", .started, payload⟩,
          ⟨p, i, name, .childStarted, payload'⟩])
    ∨ (txn.statements.filterMap Stmt.created? = []
      ∧ ∀ e ∈ txn.statements.filterMap Stmt.event?,
        e.eventType ≠ .started ∧ e.eventType ≠ .childStarted) := by
  rcases h.cases with ⟨worker, row, -, rfl⟩ | ⟨r, -, hrun⟩ | ⟨id, name, input, c, -, rfl⟩
      | ⟨w, T, payload, c, -, rfl⟩ | ⟨w, c, -, rfl⟩
  · exact .inr (.inr ⟨rfl, nofun⟩)
  · cases txn with
    | createChildWorkflow p c name input i =>
      obtain ⟨rfl, rfl⟩ := hrun
      cases input with
      | error error =>
        refine absurd ?_ (hpay (childWorkflowId r.workflowId i) (-1) "workflow" .started error)
        exact .tail _ (.tail _ (.head _))
      | ok input => exact .inr (.inl ⟨_, i, name, rfl, _, _, rfl⟩)
    | completeWorkflow w result parentInfo =>
      refine .inr (.inr ⟨by cases parentInfo <;> rfl, fun e he => ?_⟩)
      obtain ⟨o, -, rfl | ⟨parent, -, rfl⟩⟩ := mem_writeTerminal he <;> exact ⟨nofun, nofun⟩
    | failWorkflow w message parentInfo =>
      refine .inr (.inr ⟨by cases parentInfo <;> rfl, fun e he => ?_⟩)
      obtain ⟨o, -, rfl | ⟨parent, -, rfl⟩⟩ := mem_writeTerminal he <;> exact ⟨nofun, nofun⟩
    | insertEvent w i n ty payload =>
      refine .inr (.inr ⟨rfl, fun e he => ?_⟩)
      obtain ⟨p, -, rfl⟩ := mem_insertInto he
      rcases hrun.2 with ⟨-, rfl | rfl | rfl | rfl⟩ | ⟨-, rfl, -⟩ <;> exact ⟨nofun, nofun⟩
    | markWorkflowWaiting w wait => exact .inr (.inr ⟨rfl, nofun⟩)
    | updateWorkflowRunAt w time => exact .inr (.inr ⟨rfl, nofun⟩)
    | _ => cases hrun
  · exact .inl ⟨id, name, rfl, _, rfl⟩
  · refine .inr (.inr ⟨rfl, fun e he => ?_⟩)
    obtain rfl := List.mem_singleton.mp he
    exact ⟨nofun, nofun⟩
  · exact .inr (.inr ⟨rfl, nofun⟩)

theorem committed (hs : Reachable d ok s) {t : Nat} {x : Tx} (hx : s.tx? t = some x)
    (hrest : x.rest = []) :
    (x.inserted = [] ∧ x.created = [])
    ∨ (x.inserted.map EventRecord.toEntry = x.txn.statements.filterMap Stmt.event?
      ∧ x.created.map rowKey = x.txn.statements.filterMap Stmt.created?
      ∧ ∀ w i n ty error, Stmt.insertEvent w i n ty (.error error) ∉ x.txn.statements) := by
  have hxok := tx_ok hs hx
  by_cases hres : x.result = .ok true
  · have hexec := hxok.executed_of_rest hrest hres
    refine .inr ⟨hexec ▸ hxok.entries hres, hexec ▸ hxok.rows hres, fun w i n ty error hmem => ?_⟩
    rw [← hexec] at hmem
    exact payload_of_executed hs hx hmem
  · exact .inl ⟨(hxok.quiet hres).2.1, (hxok.quiet hres).2.2.1⟩

theorem filter_of_countP {p : EventRecord → Bool} {l : List EventRecord} (h : l.countP p = 1) :
    ∃ e, l.filter p = [e] ∧ e ∈ l ∧ p e = true := by
  rw [List.countP_eq_length_filter] at h
  obtain ⟨e, he⟩ := List.length_eq_one_iff.mp h
  have hmem : e ∈ l.filter p := he ▸ List.mem_singleton.mpr rfl
  exact ⟨e, he, (List.mem_filter.mp hmem).1, (List.mem_filter.mp hmem).2⟩

/-- an event of this kind in the log of `w` is written together with the row `key` -/
def Pairs (w key : String) (p : Entry → Bool) (entries : List Entry)
    (created : List (String × String × Option String)) : Prop :=
  entries.countP (fun e => e.workflowId == w && p e) = created.countP (fun k => k.1 == key)
    ∧ created.countP (fun k => k.1 == key) ≤ 1

/-- **Events that are written together with a row are as many as the row.** -/
theorem countP_eq_row {w key : String} {p : Entry → Bool}
    (hpairs : ∀ (L : Loaded) (task : Task Val) (txn : Txn), task.Issues L txn →
      (∀ w i n ty error, Stmt.insertEvent w i n ty (.error error) ∉ txn.statements) →
      Pairs w key p (txn.statements.filterMap Stmt.event?) (txn.statements.filterMap Stmt.created?))
    (hs : Reachable d ok s) :
    (s.history w).countP (fun e => p e.toEntry) = if (s.row? key).isSome then 1 else 0 := by
  refine Reach.invariant_of_reach (I := fun s : Sys Val => (s.history w).countP
    (fun e => p e.toEntry) = if (s.row? key).isSome then 1 else 0) rfl ?_ hs
  intro s l s' hr ih _ hl
  have hstep := Step.of_step hl
  rcases hstep.tables_cases with htab | ⟨t, task, x, txn, k, rfl, hth, hrest, -, rfl⟩
  · rw [htab.history, htab.row?]
    exact ih
  have hx := Sys.tx?_eq hth
  -- the two counts of the transaction
  have hx' : Pairs w key p (x.inserted.map EventRecord.toEntry) (x.created.map rowKey) := by
    rcases committed hr hx hrest with ⟨hins, hcre⟩ | ⟨hins, hcre, hpay⟩
    · rw [hins, hcre]
      exact ⟨rfl, Nat.zero_le _⟩
    · rw [hins, hcre]
      exact hpairs _ task x.txn (issues_of_thread hr hth rfl) hpay
  rw [Sys.setThread_history, Sys.countP_publish (ids_ok hr) hx w p, ih, hx'.1,
    Sys.setThread_row?, Sys.row?_publish, Option.isSome_map, Option.isSome_or]
  by_cases hmem : ∃ row ∈ x.created, row.workflowId = key
  · obtain ⟨row, hrow, hkey⟩ := hmem
    have hnone : s.row? key = none := hkey ▸ (keys_ok hr).fresh t x hx row hrow
    have hpos : 0 < (x.created.map rowKey).countP (fun k => k.1 == key) :=
      List.countP_pos_iff.mpr ⟨rowKey row, List.mem_map_of_mem hrow, by simp [rowKey, hkey]⟩
    have hone : (x.created.map rowKey).countP (fun k => k.1 == key) = 1 := by
      have := hx'.2
      omega
    have hsome : (Rows.lookup WorkflowRecord.workflowId x.created key).isSome = true := by
      rw [Option.isSome_iff_ne_none]
      exact fun h => Rows.lookup_eq_none.mp h row hrow hkey
    rw [hone, hnone, hsome]
    rfl
  · have hzero : (x.created.map rowKey).countP (fun k => k.1 == key) = 0 := by
      refine List.countP_eq_zero.mpr fun k hk => ?_
      obtain ⟨row, hrow, rfl⟩ := List.mem_map.mp hk
      simpa [rowKey] using fun h => hmem ⟨row, hrow, h⟩
    have hnone : Rows.lookup WorkflowRecord.workflowId x.created key = none :=
      Rows.lookup_eq_none.mpr fun row hrow hkey => hmem ⟨row, hrow, hkey⟩
    rw [hzero, hnone, Nat.add_zero, Option.isSome_none, Bool.or_false]

/-- **Every workflow has one STARTED event.** -/
theorem countP_started (hs : Reachable d ok s) (w : String) :
    (s.history w).countP (fun e => e.toEntry.isStarted) = if (s.row? w).isSome then 1 else 0 := by
  refine countP_eq_row (fun L task txn h hpay => ?_) hs
  rcases h.creates hpay with ⟨id, name, hc, payload, he⟩ | ⟨p, i, name, hc, payload, payload', he⟩
      | ⟨hc, he⟩
  · rw [hc, he]
    constructor
    · simp [List.countP_cons, Entry.isStarted]
    · exact List.countP_le_length
  · rw [hc, he]
    constructor
    · simp [List.countP_cons, Entry.isStarted]
    · exact List.countP_le_length
  · rw [hc]
    refine ⟨List.countP_eq_zero.mpr fun e hmem => ?_, Nat.zero_le _⟩
    simp [Entry.isStarted, (he e hmem).1]

/-- only a run reads a log, its own -/
theorem Task.Ok.loads {t : Nat} {task : Task Val} {L : Loaded} (h : task.Ok d t L) {w : String}
    {k : (Call.loadEventHistory w : Call Val).Reply → Task Val}
    (hq : task.next? d t = some ⟨.loadEventHistory w, k⟩) :
    ∃ r, task = .run r ∧ r.workflowId = w := by
  cases task with
  | claiming worker row => cases hq
  | run r =>
    obtain ⟨m, hm, hmk⟩ := Option.map_eq_some_iff.mp hq
    have hask := (Run.Ok.next h hm).1
    rw [(Sigma.mk.inj hmk).1] at hask
    exact ⟨r, rfl, hask.symm⟩
  | request r c =>
    obtain ⟨m, hm, hmk⟩ := Option.map_eq_some_iff.mp hq
    have hwp : Resumption.wp _ c.run _ _ := h
    rw [Resumption.pending?_eq_some hm] at hwp
    have hask : Call.OfRequest r m.1 := Resumption.wp_ask hwp
    rw [(Sigma.mk.inj hmk).1] at hask
    cases r <;> cases hask
  | heartbeat w' c =>
    obtain ⟨m, hm, hmk⟩ := Option.map_eq_some_iff.mp hq
    have hwp : Resumption.wp _ c.run _ _ := h
    rw [Resumption.pending?_eq_some hm] at hwp
    have hask : m.1 = .transaction (.extendWorkflowLock w') := Resumption.wp_ask hwp
    rw [(Sigma.mk.inj hmk).1] at hask
    cases hask

/-- a history that has been read has a STARTED event -/
theorem started_of_loaded (hs : Reachable d ok s) {w : String} {history : List EventRecord}
    (hl : (w, history) ∈ s.loaded) : ∃ e ∈ history, e.eventType = .started := by
  refine Reach.invariant_of_reach (I := fun s : Sys Val => ∀ w history,
    (w, history) ∈ s.loaded → ∃ e ∈ history, e.eventType = .started) (by simp [Sys.initial]) ?_ hs
    w history hl
  intro s l s' hr ih _ hstep w history hl
  cases Step.of_step hstep with
  | @read t task q k reply hth hq hreply =>
    replace hl : (w, history) ∈ (s.noteLoad q).loaded := hl
    cases q with
    | loadEventHistory w' =>
      rcases List.mem_cons.mp hl with heq | hl
      · obtain ⟨rfl, rfl⟩ := Prod.mk.inj heq
        have htask : task.Ok d t s.loaded := task_ok hr hth
        obtain ⟨r, rfl, rfl⟩ := htask.loads hq
        have hcount := countP_started hr r.workflowId
        rw [row_of_run hr (Sys.run?_eq hth), if_pos rfl] at hcount
        obtain ⟨e, -, he, hk⟩ := filter_of_countP hcount
        exact ⟨e, he, by simpa [Entry.isStarted] using hk⟩
      · exact ih w history hl
    | _ => exact ih w history hl
  | _ => exact ih w history hl

/-- **A step has a CHILD_STARTED event when its child has a row.** -/
theorem countP_childStarted (hs : Reachable d ok s) (p : String) (i : Nat) :
    (s.history p).countP (fun e => e.toEntry.isChildStarted i)
      = if (s.row? (childWorkflowId p i)).isSome then 1 else 0 := by
  refine countP_eq_row (fun L task txn h hpay => ?_) hs
  rcases h.creates hpay with ⟨id, name, hc, payload, he⟩ | ⟨q, j, name, hc, payload, payload', he⟩
      | ⟨hc, he⟩
  · rw [hc, he]
    constructor
    · simp [Entry.isChildStarted, root_ne_child]
    · exact List.countP_le_length
  · rw [hc, he]
    constructor
    · by_cases hsame : q = p ∧ j = i
      · obtain ⟨rfl, rfl⟩ := hsame
        simp [Entry.isChildStarted]
      · have hne : childWorkflowId q j ≠ childWorkflowId p i :=
          fun h => hsame (childWorkflowId_inj h)
        have hne' : ¬ (q = p ∧ (j : Int) = i) := fun h => hsame ⟨h.1, by exact_mod_cast h.2⟩
        simp [List.countP_cons, Entry.isChildStarted, hne]
        simpa using hne'
    · exact List.countP_le_length
  · rw [hc]
    refine ⟨List.countP_eq_zero.mpr fun e hmem => ?_, Nat.zero_le _⟩
    simp [Entry.isChildStarted, (he e hmem).2]

/-! ## rows -/

theorem map_rowKey_applyUpdates (rows : List WorkflowRecord)
    (updates : List (String × RowUpdate)) :
    (applyUpdates rows updates).map rowKey = rows.map rowKey := by
  induction updates generalizing rows with
  | nil => rfl
  | cons u updates ih =>
    have hstep : applyUpdates rows (u :: updates)
        = applyUpdates (Rows.modify WorkflowRecord.workflowId u.1 u.2.apply rows) updates := rfl
    rw [hstep, ih, Rows.modify, List.map_map]
    refine List.map_congr_left fun row _ => ?_
    show rowKey (if row.workflowId = u.1 then u.2.apply row else row) = rowKey row
    split
    · simp [rowKey]
    · rfl

/-- the key of a root, or of a child of its parent -/
def IsForestKey (key : String × String × Option String) : Prop :=
  (key.2.2 = none ∧ ':' ∉ key.1.toList) ∨ ∃ p i, key.2.2 = some p ∧ key.1 = childWorkflowId p i

/-- the keys of the table are distinct, and each of them is a root's or a child's -/
theorem workflows_ok (hs : Reachable d ok s) :
    (s.workflows.map WorkflowRecord.workflowId).Nodup
      ∧ ∀ row ∈ s.workflows, IsForestKey (rowKey row) := by
  suffices ((s.workflows.map rowKey).map (·.1)).Nodup
      ∧ ∀ key ∈ s.workflows.map rowKey, IsForestKey key by
    refine ⟨by simpa [Function.comp_def, rowKey] using this.1, fun row hrow => ?_⟩
    exact this.2 _ (List.mem_map_of_mem hrow)
  refine Reach.invariant_of_reach (I := fun s : Sys Val =>
    ((s.workflows.map rowKey).map (·.1)).Nodup
      ∧ ∀ key ∈ s.workflows.map rowKey, IsForestKey key) ⟨by simp [Sys.initial],
        by simp [Sys.initial]⟩ ?_ hs
  intro s l s' hr ih _ hl
  rcases (Step.of_step hl).tables_cases with htab | ⟨t, task, x, txn, k, rfl, hth, hrest, -, rfl⟩
  · rw [htab.workflows]
    exact ih
  have hx := Sys.tx?_eq hth
  have hrows : ((s.publish t x).setThread t ⟨k x.result, none, true⟩).workflows.map rowKey
      = s.workflows.map rowKey ++ x.created.map rowKey := by
    show (applyUpdates (s.workflows ++ x.created) x.updates).map rowKey = _
    rw [map_rowKey_applyUpdates, List.map_append]
  rw [hrows]
  have hcreated : x.created.map rowKey = []
      ∨ ∃ key, x.created.map rowKey = [key] ∧ IsForestKey key := by
    rcases committed hr hx hrest with ⟨-, hcre⟩ | ⟨-, hcre, hpay⟩
    · exact .inl (by rw [hcre]; rfl)
    · rw [hcre]
      rcases (issues_of_thread hr hth rfl).creates hpay with ⟨id, name, hc, -⟩
          | ⟨p, i, name, hc, -⟩ | ⟨hc, -⟩
      · exact .inr ⟨_, hc, .inl ⟨rfl, id.no_colon⟩⟩
      · exact .inr ⟨_, hc, .inr ⟨p, i, rfl, rfl⟩⟩
      · exact .inl hc
  rcases hcreated with hnil | ⟨key, hkey, hforest⟩
  · rw [hnil, List.append_nil]
    exact ih
  · rw [hkey]
    constructor
    · rw [List.map_append, List.nodup_append]
      refine ⟨ih.1, by simp, ?_⟩
      -- the new row has a key of its own
      rintro a ha b hb rfl
      obtain ⟨k', hk', rfl⟩ := List.mem_map.mp ha
      obtain ⟨row, hrow, rfl⟩ := List.mem_map.mp hk'
      have hmem : key ∈ x.created.map rowKey := hkey ▸ List.mem_singleton.mpr rfl
      obtain ⟨new, hnew, rfl⟩ := List.mem_map.mp hmem
      have hfresh := (keys_ok hr).fresh t x hx new hnew
      have hsame : row.workflowId = new.workflowId := by simpa [rowKey] using hb
      exact Rows.lookup_eq_none.mp hfresh row hrow hsame
    · intro k' hk'
      rcases List.mem_append.mp hk' with hk' | hk'
      · exact ih.2 k' hk'
      · obtain rfl := List.mem_singleton.mp hk'
        exact hforest

/-! ## one child per step -/

theorem childId_of_childStarted (hs : Reachable d ok s) {p : String} {i : Nat} {e : EventRecord}
    (he : e ∈ s.history p) (hk : e.toEntry.isChildStarted i = true) :
    e.payload.get? "child_id" = some (.str (childWorkflowId p i)) := by
  obtain ⟨hev, rfl⟩ := Sys.mem_history.mp he
  simp only [Entry.isChildStarted, Bool.and_eq_true, beq_iff_eq] at hk
  have hok := entry_ok hs hev
  unfold Entry.Ok at hok
  rw [hk.1] at hok
  obtain ⟨j, hj, hchild⟩ := hok
  have hij : j = i := by
    have := hj.symm.trans hk.2
    exact_mod_cast this
  rw [hij] at hchild
  exact hchild

theorem parent_of_started (hs : Reachable d ok s) {p : String} {i : Nat} {e : EventRecord}
    (he : e ∈ s.history (childWorkflowId p i)) (hk : e.toEntry.isStarted = true) :
    parentInfoOf e.payload = some ⟨p, childWorkflowId p i⟩ := by
  obtain ⟨hev, hw⟩ := Sys.mem_history.mp he
  have hok := entry_ok hs hev
  unfold Entry.Ok at hok
  rw [show e.eventType = .started by simpa [Entry.isStarted] using hk] at hok
  rcases hok.2 with ⟨-, hcolon⟩ | ⟨q, j, hid, hparent⟩
  · rw [hw] at hcolon
    exact absurd (colon_mem_childWorkflowId p i) hcolon
  · rw [hparent, hw]
    rw [hw] at hid
    rw [(childWorkflowId_inj hid).1]

theorem parent_of_child (hs : Reachable d ok s) {p : String} {i : Nat}
    {parentInfo : Option ParentInfo} (h : ParentOk (childWorkflowId p i) s.loaded parentInfo) :
    parentInfo = some ⟨p, childWorkflowId p i⟩ := by
  obtain ⟨history, hl, rfl⟩ := h
  obtain ⟨e₀, he₀, hty⟩ := started_of_loaded hs hl
  obtain ⟨e, hfind⟩ : ∃ e, history.find? (fun e => e.eventType == .started) = some e := by
    rw [← Option.isSome_iff_exists, List.find?_isSome]
    exact ⟨e₀, he₀, by simpa using hty⟩
  have hk : e.toEntry.isStarted = true := by
    simpa [Entry.isStarted] using List.find?_some hfind
  unfold parentOf
  rw [hfind, Option.bind_some]
  exact parent_of_started hs (mem_events_of_loaded hs hl (List.mem_of_find?_eq_some hfind)) hk

theorem spawnChild_returns (hs : Reachable d ok s) {t : Nat} {r : Run Val}
    (hr : s.run? t = some r) {i : Nat} {value : Val} (hi : r.delivered[i]? = some (.ok value))
    {name : String} {kwargs : Except PyExc Json}
    (hspawn : r.program (r.delivered.take i) = .spawnChild name kwargs) :
    value = d.ofJson (.str (childWorkflowId r.workflowId i)) := by
  obtain ⟨tx, alive, hth⟩ := Sys.thread_of_run? hr
  have hrun : r.Ok d.toRuntime (d.workflowRegistry t) s.loaded := task_ok hs hth
  have hdel := hrun.delivers i _ hi
  rw [hspawn] at hdel
  rcases hdel value rfl with heq | ⟨history, e, hmem, he, hi, hty, heq⟩
  · exact heq
  · have hk : e.toEntry.isChildStarted i = true := by simp [Entry.isChildStarted, hi, hty]
    rw [getItem_of_get? (childId_of_childStarted hs (mem_events_of_loaded hs hmem he) hk)] at heq
    exact (Except.ok.inj heq).symm

/-- **Exactly one child per spawn step.** -/
theorem one_child_per_step (hs : Reachable d (fun _ _ => True) s) :
    (∀ (p : String) (i : Nat), ((s.row? (childWorkflowId p i)).isSome = true ↔
      (∃ e, (s.history p).filter (fun e => e.toEntry.isChildStarted i) = [e]
        ∧ e.payload.get? "child_id" = some (.str (childWorkflowId p i)))
      ∧ ∃ e, (s.history (childWorkflowId p i)).filter (fun e => e.toEntry.isStarted) = [e]
        ∧ parentInfoOf e.payload = some ⟨p, childWorkflowId p i⟩))
    ∧ (s.workflows.map WorkflowRecord.workflowId).Nodup
    ∧ (∀ row ∈ s.workflows, (row.parentId = none ∧ ':' ∉ row.workflowId.toList)
      ∨ ∃ p i, row.parentId = some p ∧ row.workflowId = childWorkflowId p i)
    ∧ (∀ (p q : String) (i j : Nat), childWorkflowId p i = childWorkflowId q j → p = q ∧ i = j)
    ∧ (∀ (p : String) (i : Nat), ':' ∈ (childWorkflowId p i).toList)
    ∧ ∀ t r i value name kwargs, s.run? t = some r → r.delivered[i]? = some (.ok value) →
      r.program (r.delivered.take i) = .spawnChild name kwargs →
        value = d.ofJson (.str (childWorkflowId r.workflowId i)) := by
  refine ⟨fun p i => ?_, (workflows_ok hs).1, (workflows_ok hs).2,
    fun _ _ _ _ => childWorkflowId_inj, colon_mem_childWorkflowId,
    fun t r i value name kwargs hr hi hspawn => spawnChild_returns hs hr hi hspawn⟩
  have hchild := countP_childStarted hs p i
  have hstarted := countP_started hs (childWorkflowId p i)
  cases hrow : (s.row? (childWorkflowId p i)).isSome with
  | true =>
    rw [hrow] at hchild hstarted
    obtain ⟨e, he, hmem, hk⟩ := filter_of_countP hchild
    obtain ⟨e', he', hmem', hk'⟩ := filter_of_countP hstarted
    exact ⟨fun _ => ⟨⟨e, he, childId_of_childStarted hs hmem hk⟩,
      e', he', parent_of_started hs hmem' hk'⟩, fun _ => rfl⟩
  | false =>
    rw [hrow] at hchild
    refine ⟨nofun, fun ⟨⟨e, he, _⟩, _⟩ => ?_⟩
    rw [List.countP_eq_length_filter, he] at hchild
    cases hchild

end

/-! ## a child -/

def spawns : Deployment Json :=
  .plain fun name => some fun _ delivered =>
    if name == "n" && delivered.isEmpty then .spawnChild "child" (.ok (.obj []))
    else .ret (.ok .null)

def createsChild : List (Label Json) :=
  [.request (.startWorkflow .w "n" (.obj []))] ++ transact 0 3
    ++ [.claim "A" (newRow "w" "n" none 0)] ++ transact 1 2
    ++ [.read 1, .advance 1] ++ transact 1 7

theorem one_child_per_step_once : ∃ s : Sys Json, (s.row? "w:0").isSome = true
    ∧ ∃ e, (s.history "w").filter (fun e => e.toEntry.isChildStarted 0) = [e]
      ∧ e.payload.get? "child_id" = some (.str "w:0") := by
  have hrun : (follow (Sys.step spawns) (fun _ _ => true) Sys.initial createsChild).any
      (fun s => (s.row? "w:0").isSome) = true := by
    decide +kernel
  obtain ⟨s, hs, hrow⟩ := Reach.exists_of_follow _ hrun
  have hid : childWorkflowId "w" 0 = "w:0" := by decide
  have hstep := (one_child_per_step (hs.mono fun _ _ _ => trivial)).1 "w" 0
  rw [hid] at hstep
  exact ⟨s, hrow, (hstep.mp hrow).1⟩

end TemporalLight
