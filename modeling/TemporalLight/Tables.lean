import TemporalLight.Transactions

/-!
# The committed tables

What a commit makes of one row, one lease and one log, and the invariants of the two tables:

* `ids_ok`     ids are never given twice and the log is in the order of its ids;
* `keys_ok`    a row that is being inserted has a key that no one else has;
* `row_of_event` the foreign key of the table `events`.
-/

namespace TemporalLight
open Runs

section
variable {Val : Type} {d : Deployment Val} {s s' : Sys Val} {ok : Sys Val → Label Val → Prop}

/-! ## one row after a commit -/

/-- the row of `w` after the updates of a transaction -/
def rowAfter (w : String) (updates : List (String × RowUpdate)) (row : WorkflowRecord) :
    WorkflowRecord :=
  updates.foldl (fun row u => if u.1 = w then u.2.apply row else row) row

theorem lookup_applyUpdates (rows : List WorkflowRecord) (updates : List (String × RowUpdate))
    (w : String) :
    Rows.lookup WorkflowRecord.workflowId (applyUpdates rows updates) w
      = (Rows.lookup WorkflowRecord.workflowId rows w).map (rowAfter w updates) := by
  induction updates generalizing rows with
  | nil => exact Option.map_id'.symm
  | cons u updates ih =>
    have hstep : applyUpdates rows (u :: updates)
        = applyUpdates (Rows.modify WorkflowRecord.workflowId u.1 u.2.apply rows) updates := rfl
    rw [hstep, ih, Rows.lookup_modify _ _ _ _ (RowUpdate.apply_workflowId u.2)]
    by_cases hw : w = u.1
    · rw [if_pos hw, Option.map_map]
      congr 1
      funext row
      simp [rowAfter, hw]
    · rw [if_neg hw]
      congr 1
      funext row
      simp [rowAfter, Ne.symm hw]

theorem Sys.row?_publish (t : Nat) (x : Tx) (w : String) :
    (s.publish t x).row? w
      = ((s.row? w).or (Rows.lookup WorkflowRecord.workflowId x.created w)).map
          (rowAfter w x.updates) := by
  show Rows.lookup _ (applyUpdates (s.workflows ++ x.created) x.updates) w = _
  rw [lookup_applyUpdates, Rows.lookup_append]
  rfl

theorem rowAfter_of_forall_ne {w : String} {updates : List (String × RowUpdate)}
    (h : ∀ u ∈ updates, u.1 ≠ w) (row : WorkflowRecord) : rowAfter w updates row = row := by
  induction updates generalizing row with
  | nil => rfl
  | cons u updates ih =>
    show rowAfter w updates (if u.1 = w then u.2.apply row else row) = row
    rw [if_neg (h u List.mem_cons_self)]
    exact ih (fun v hv => h v (List.mem_cons_of_mem _ hv)) row

theorem rowAfter_induction {w : String} {P : WorkflowRecord → Prop}
    {updates : List (String × RowUpdate)}
    (h : ∀ u, (w, u) ∈ updates → ∀ row, P row → P (u.apply row)) {row : WorkflowRecord}
    (hrow : P row) : P (rowAfter w updates row) := by
  induction updates generalizing row with
  | nil => exact hrow
  | cons u updates ih =>
    show P (rowAfter w updates (if u.1 = w then u.2.apply row else row))
    refine ih (fun v hv => h v (List.mem_cons_of_mem _ hv)) ?_
    by_cases hu : u.1 = w
    · rw [if_pos hu]
      exact h u.2 (hu ▸ List.mem_cons_self) row hrow
    · rwa [if_neg hu]

theorem rowAfter_of_mem {w : String} {P : WorkflowRecord → Prop}
    {updates : List (String × RowUpdate)} (h : ∀ u, (w, u) ∈ updates → ∀ row, P (u.apply row))
    (hmem : ∃ u, (w, u) ∈ updates) (row : WorkflowRecord) : P (rowAfter w updates row) := by
  induction updates generalizing row with
  | nil =>
    obtain ⟨u, hu⟩ := hmem
    cases hu
  | cons v updates ih =>
    have hrest : ∀ u, (w, u) ∈ updates → ∀ row, P (u.apply row) :=
      fun u hu => h u (List.mem_cons_of_mem _ hu)
    show P (rowAfter w updates (if v.1 = w then v.2.apply row else row))
    by_cases hv : v.1 = w
    · rw [if_pos hv]
      exact rowAfter_induction (fun u hu row _ => hrest u hu row)
        (h v.2 (hv ▸ List.mem_cons_self) row)
    · rw [if_neg hv]
      obtain ⟨u, hu⟩ := hmem
      rcases List.mem_cons.mp hu with rfl | hu
      · exact absurd rfl hv
      · exact ih hrest ⟨u, hu⟩ row

@[simp] theorem rowAfter_workflowId (w : String) (updates : List (String × RowUpdate))
    (row : WorkflowRecord) : (rowAfter w updates row).workflowId = row.workflowId :=
  rowAfter_induction (P := fun r => r.workflowId = row.workflowId)
    (fun u _ r hr => (RowUpdate.apply_workflowId u r).trans hr) rfl

@[simp] theorem rowAfter_name (w : String) (updates : List (String × RowUpdate))
    (row : WorkflowRecord) : (rowAfter w updates row).name = row.name :=
  rowAfter_induction (P := fun r => r.name = row.name)
    (fun u _ r hr => (RowUpdate.apply_name u r).trans hr) rfl

@[simp] theorem rowAfter_parentId (w : String) (updates : List (String × RowUpdate))
    (row : WorkflowRecord) : (rowAfter w updates row).parentId = row.parentId :=
  rowAfter_induction (P := fun r => r.parentId = row.parentId)
    (fun u _ r hr => (RowUpdate.apply_parentId u r).trans hr) rfl

theorem leaseAfter_apply (t : Nat) (lease : String → Option Nat)
    (updates : List (String × RowUpdate)) (w : String) :
    leaseAfter t lease updates w
      = updates.foldl (fun l u => if u.1 = w then u.2.leaseAfter t l else l) (lease w) := by
  induction updates generalizing lease with
  | nil => rfl
  | cons u updates ih =>
    show leaseAfter t _ updates w = _
    rw [ih, List.foldl_cons]
    congr 1
    by_cases hw : u.1 = w
    · simp [hw]
    · simp [hw, Ne.symm hw]

theorem rowAfter_lease_induction {t : Nat} {lease : String → Option Nat} {w : String}
    {P : WorkflowRecord → Option Nat → Prop} {updates : List (String × RowUpdate)}
    (h : ∀ u, (w, u) ∈ updates → ∀ row holder, P row holder →
      P (u.apply row) (u.leaseAfter t holder))
    {row : WorkflowRecord} (hrow : P row (lease w)) :
    P (rowAfter w updates row) (leaseAfter t lease updates w) := by
  rw [leaseAfter_apply]
  generalize lease w = holder at hrow
  induction updates generalizing row holder with
  | nil => exact hrow
  | cons u updates ih =>
    rw [List.foldl_cons]
    show P (rowAfter w updates (if u.1 = w then u.2.apply row else row)) _
    by_cases hu : u.1 = w
    · rw [if_pos hu, if_pos hu]
      exact ih (fun v hv => h v (List.mem_cons_of_mem _ hv)) _
        (h u.2 (hu ▸ List.mem_cons_self) row holder hrow)
    · rw [if_neg hu, if_neg hu]
      exact ih (fun v hv => h v (List.mem_cons_of_mem _ hv)) _ hrow

theorem Sys.row?_publish_of_forall_ne {t : Nat} {x : Tx} {w : String}
    (hu : ∀ u ∈ x.updates, u.1 ≠ w) (hc : ∀ row ∈ x.created, row.workflowId ≠ w) :
    (s.publish t x).row? w = s.row? w := by
  rw [Sys.row?_publish, Rows.lookup_eq_none.mpr hc, Option.or_none]
  have : rowAfter w x.updates = id := funext fun row => rowAfter_of_forall_ne hu row
  rw [this, Option.map_id, id]

/-! ## rows are never deleted -/

theorem Step.row?_isSome {l : Label Val} (h : Step d s l s') {w : String}
    (hw : (s.row? w).isSome = true) : (s'.row? w).isSome = true := by
  rcases h.tables_cases with hs | ⟨t, task, x, txn, k, -, -, -, -, rfl⟩
  · rwa [hs.row?]
  · rw [Sys.setThread_row?, Sys.row?_publish, Option.isSome_map]
    cases hrow : s.row? w with
    | none => rw [hrow] at hw; cases hw
    | some row => rfl

theorem Step.mem_events {l : Label Val} (h : Step d s l s') {e : EventRecord}
    (he : e ∈ s.events) : e ∈ s'.events := by
  rcases h.tables_cases with hs | ⟨t, task, x, txn, k, -, -, -, -, rfl⟩
  · rwa [hs.events]
  · exact ById.mem_insertAll.mpr (.inl he)

@[simp] theorem Sys.mem_history {w : String} {e : EventRecord} :
    e ∈ s.history w ↔ e ∈ s.events ∧ e.workflowId = w := by
  simp [Sys.history]

theorem Step.mem_history {l : Label Val} (h : Step d s l s') {w : String} {e : EventRecord}
    (he : e ∈ s.history w) : e ∈ s'.history w := by
  rw [Sys.mem_history] at he ⊢
  exact ⟨h.mem_events he.1, he.2⟩

theorem mem_events_publish {t : Nat} {x : Tx} {e : EventRecord} :
    e ∈ (s.publish t x).events ↔ e ∈ s.events ∨ e ∈ x.inserted :=
  ById.mem_insertAll

theorem Step.clock_le {l : Label Val} (h : Step d s l s') : s.clock ≤ s'.clock := by
  cases h with
  | tick duration =>
    show s.clock ≤ s.clock + duration
    omega
  | read hth hq hreply => exact le_of_eq (Sys.noteLoad_clock _).symm
  | _ => exact le_refl _

/-! ## ids -/

theorem Step.nextId_le {l : Label Val} (h : Step d s l s') : s.nextId ≤ s'.nextId := by
  cases h with
  | execute hth hrest hx => exact Nat.le_add_right _ _
  | read hth hq hreply => exact le_of_eq (Sys.noteLoad_nextId _).symm
  | _ => exact le_refl _

/-- an event in flight was there before, or has just got the next id -/
theorem Step.inserted_cases {l : Label Val} (h : Step d s l s') {u : Nat} {x' : Tx}
    (hx : s'.tx? u = some x') {e : EventRecord} (he : e ∈ x'.inserted) :
    (∃ x, s.tx? u = some x ∧ e ∈ x.inserted)
      ∨ (l = .execute u ∧ e.eventId = s.nextId ∧ s'.nextId = s.nextId + 1) := by
  rcases h.tx_cases hx with ⟨hx, -⟩ | ⟨_, _, _, -, -, -, rfl⟩
      | ⟨x, stmt, rest, rfl, hx₀, hrest, hafter⟩
  · exact .inl ⟨x', hx, he⟩
  · cases he
  · rcases Tx.after_cases hafter with ⟨_, -, rfl⟩ | ⟨-, rfl⟩ | ⟨hp, rfl⟩
    · cases he
    · exact .inl ⟨x, hx₀, he⟩
    · rcases List.mem_append.mp he with he | he
      · exact .inl ⟨x, hx₀, he⟩
      · obtain ⟨entry, hentry, rfl⟩ := List.mem_map.mp he
        refine .inr ⟨rfl, rfl, ?_⟩
        cases h with
        | execute hth hrest' hafter' =>
          have hx₁ := Sys.tx?_eq hth
          rw [hx₀] at hx₁
          obtain rfl := Option.some.inj hx₁
          rw [hrest] at hrest'
          obtain ⟨rfl, rfl⟩ := List.cons.inj hrest'
          have hsome : (s.effect d u x stmt).event? = some entry := by
            simpa using hentry
          show s.nextId + _ = _
          rw [hsome]
          rfl

structure Sys.IdsOk (s : Sys Val) : Prop where
  sorted : ById.Sorted EventRecord.eventId s.events
  committed_lt : ∀ e ∈ s.events, e.eventId < s.nextId
  inserted_lt : ∀ t x, s.tx? t = some x → ∀ e ∈ x.inserted, e.eventId < s.nextId
  inserted_sorted : ∀ t x, s.tx? t = some x → ById.Sorted EventRecord.eventId x.inserted
  inserted_ne : ∀ t x, s.tx? t = some x → ∀ e ∈ x.inserted, ∀ e' ∈ s.events,
    e'.eventId ≠ e.eventId
  disjoint : ∀ t u x y, t ≠ u → s.tx? t = some x → s.tx? u = some y → ∀ e ∈ x.inserted,
    ∀ e' ∈ y.inserted, e'.eventId ≠ e.eventId

theorem Sys.IdsOk.publish {t : Nat} {x : Tx} (h : s.IdsOk) (hx : s.tx? t = some x) :
    ById.Sorted EventRecord.eventId (s.publish t x).events :=
  h.sorted.insertAll (h.inserted_sorted t x hx) (h.inserted_ne t x hx)

theorem Step.ids_ok {l : Label Val} (hstep : Step d s l s') (h : s.IdsOk) : s'.IdsOk := by
  have hle := hstep.nextId_le
  -- the events of the new state are old or come from the transaction that commits
  have hevents : ∀ e ∈ s'.events, e ∈ s.events
      ∨ ∃ t x, l = .commit t ∧ s.tx? t = some x ∧ e ∈ x.inserted := by
    intro e he
    rcases hstep.tables_cases with hs | ⟨t, task, x, txn, k, hl, hth, -, -, rfl⟩
    · exact .inl (hs.events ▸ he)
    · rcases (mem_events_publish (t := t)).mp he with he | he
      · exact .inl he
      · exact .inr ⟨t, x, hl, Sys.tx?_eq hth, he⟩
  refine ⟨?_, ?_, ?_, ?_, ?_, ?_⟩
  · rcases hstep.tables_cases with hs | ⟨t, task, x, txn, k, -, hth, -, -, rfl⟩
    · rw [hs.events]
      exact h.sorted
    · exact h.publish (Sys.tx?_eq hth)
  · intro e he
    rcases hevents e he with he | ⟨t, x, -, hx, he⟩
    · exact lt_of_lt_of_le (h.committed_lt e he) hle
    · exact lt_of_lt_of_le (h.inserted_lt t x hx e he) hle
  · intro t x' hx' e he
    rcases hstep.inserted_cases hx' he with ⟨x, hx, he⟩ | ⟨-, hid, hnext⟩
    · exact lt_of_lt_of_le (h.inserted_lt t x hx e he) hle
    · omega
  · intro t x' hx'
    rcases hstep.tx_cases hx' with ⟨hx, -⟩ | ⟨_, _, _, -, -, -, rfl⟩
        | ⟨x, stmt, rest, -, hx, -, hafter⟩
    · exact h.inserted_sorted t x' hx
    · exact List.Pairwise.nil
    · have hsorted := h.inserted_sorted t x hx
      rcases Tx.after_cases hafter with ⟨_, -, rfl⟩ | ⟨-, rfl⟩ | ⟨-, rfl⟩
      · exact List.Pairwise.nil
      · exact hsorted
      · refine List.pairwise_append.mpr ⟨hsorted, ?_, fun a ha b hb => ?_⟩
        · cases (s.effect d t x stmt).event? <;> simp
        · obtain ⟨entry, -, rfl⟩ := List.mem_map.mp hb
          exact h.inserted_lt t x hx a ha
  · intro t x' hx' e he e' he'
    rcases hstep.inserted_cases hx' he with ⟨x, hx, he⟩ | ⟨hl, hid, -⟩
    · rcases hevents e' he' with he' | ⟨u, y, hl, hy, he'⟩
      · exact h.inserted_ne t x hx e he e' he'
      · -- the transaction that commits is another one, as `t` still has its own open
        have htu : t ≠ u := by
          rintro rfl
          exact hstep.ne_commit hx' hl
        exact h.disjoint t u x y htu hx hy e he e' he'
    · rcases hevents e' he' with he' | ⟨u, y, hl', -, -⟩
      · have := h.committed_lt e' he'
        omega
      · rw [hl] at hl'
        cases hl'
  · intro t u x' y' htu hx' hy' e he e' he'
    rcases hstep.inserted_cases hx' he with ⟨x, hx, he⟩ | ⟨hl, hid, -⟩
    · rcases hstep.inserted_cases hy' he' with ⟨y, hy, he'⟩ | ⟨-, hid', -⟩
      · exact h.disjoint t u x y htu hx hy e he e' he'
      · have := h.inserted_lt t x hx e he
        omega
    · rcases hstep.inserted_cases hy' he' with ⟨y, hy, he'⟩ | ⟨hl', -, -⟩
      · have := h.inserted_lt u y hy e' he'
        omega
      · rw [hl] at hl'
        exact absurd (Label.execute.inj hl') htu

theorem ids_ok (hs : Reachable d ok s) : s.IdsOk := by
  refine Reach.invariant ?_ (fun s l s' h _ hl => (Step.of_step hl).ids_ok h) hs
  refine ⟨List.Pairwise.nil, nofun, ?_, ?_, ?_, ?_⟩
  · intro t x hx
    rw [Sys.initial_tx?] at hx
    cases hx
  · intro t x hx
    rw [Sys.initial_tx?] at hx
    cases hx
  · intro t x hx
    rw [Sys.initial_tx?] at hx
    cases hx
  · intro t u x y _ hx
    rw [Sys.initial_tx?] at hx
    cases hx

/-- an event in flight stays newer than the committed ones of a kind while no other transaction
commits one of this kind -/
theorem Step.newer {l : Label Val} (hids : s.IdsOk) (hstep : Step d s l s') {t : Nat} {x' : Tx}
    (hx' : s'.tx? t = some x') {e : EventRecord} (he : e ∈ x'.inserted) {K : EventRecord → Prop}
    (ih : ∀ x, s.tx? t = some x → e ∈ x.inserted → ∀ e' ∈ s.events, K e' → e'.eventId < e.eventId)
    (hcommit : ∀ u y x, l = .commit u → u ≠ t → s.tx? u = some y → s.tx? t = some x →
      e ∈ x.inserted → ∀ e' ∈ y.inserted, ¬ K e') :
    ∀ e' ∈ s'.events, K e' → e'.eventId < e.eventId := by
  intro e' he' hK
  rcases hstep.inserted_cases hx' he with ⟨x, hx, he⟩ | ⟨rfl, hid, -⟩
  · rcases hstep.tables_cases with htab | ⟨u, task, y, txn, k, rfl, hth, hrest, -, rfl⟩
    · exact ih x hx he e' (htab.events ▸ he') hK
    · rcases (mem_events_publish (t := u)).mp he' with he' | he'
      · exact ih x hx he e' he' hK
      · exact absurd hK (hcommit u y x rfl (fun h => hstep.ne_commit hx' (h ▸ rfl))
          (Sys.tx?_eq hth) hx he e' he')
  · rcases hstep.tables_cases with htab | ⟨u, _, _, _, _, hu, -⟩
    · rw [hid]
      exact hids.committed_lt e' (htab.events ▸ he')
    · cases hu

theorem Sys.history_publish (h : s.IdsOk) {t : Nat} {x : Tx} (hx : s.tx? t = some x)
    (w : String) :
    (s.publish t x).history w = ById.insertAll EventRecord.eventId (s.history w)
      (x.inserted.filter fun e => e.workflowId == w) :=
  ById.insertAll_filter h.sorted (h.inserted_sorted t x hx) (h.inserted_ne t x hx)

theorem Sys.countP_publish (h : s.IdsOk) {t : Nat} {x : Tx} (hx : s.tx? t = some x) (w : String)
    (p : Entry → Bool) :
    ((s.publish t x).history w).countP (fun e => p e.toEntry)
      = (s.history w).countP (fun e => p e.toEntry)
        + (x.inserted.map EventRecord.toEntry).countP fun e => e.workflowId == w && p e := by
  rw [Sys.history_publish h hx, (ById.insertAll_perm _ _).countP_eq, List.countP_append,
    List.countP_filter, List.countP_map]
  congr 1
  refine List.countP_congr fun e _ => ?_
  simp [and_comm]

/-- events of a kind whose ids are larger than all before them come last -/
theorem Sys.filter_publish (h : s.IdsOk) {t : Nat} {x : Tx} (hx : s.tx? t = some x) {w : String}
    {q : EventRecord → Bool}
    (hlt : ∀ a ∈ x.inserted, a.workflowId = w → q a = true → ∀ b ∈ s.history w, q b = true →
      b.eventId < a.eventId) :
    ((s.publish t x).history w).filter q
      = (s.history w).filter q ++ x.inserted.filter fun e => e.workflowId == w && q e := by
  have hnew := h.inserted_sorted t x hx
  have hne : ∀ a ∈ x.inserted.filter (fun e => e.workflowId == w), ∀ b ∈ s.history w,
      b.eventId ≠ a.eventId := fun a ha b hb =>
    h.inserted_ne t x hx a (List.mem_filter.mp ha).1 b (Sys.mem_history.mp hb).1
  have hold : ById.Sorted EventRecord.eventId (s.history w) := h.sorted.filter _
  rw [Sys.history_publish h hx, ById.insertAll_filter hold (hnew.filter _) hne, List.filter_filter]
  have hcomm : (x.inserted.filter fun a => q a && a.workflowId == w)
      = x.inserted.filter fun a => a.workflowId == w && q a :=
    List.filter_congr fun a _ => Bool.and_comm _ _
  rw [hcomm]
  refine ById.insertAll_of_forall_lt (hnew.filter _) fun a ha b hb => ?_
  obtain ⟨ha, hq⟩ := List.mem_filter.mp ha
  obtain ⟨hw, hq⟩ := Bool.and_eq_true_iff.mp hq
  obtain ⟨hb, hqb⟩ := List.mem_filter.mp hb
  exact hlt a ha (beq_iff_eq.mp hw) hq b hb hqb

/-! ## keys -/

structure Sys.KeysOk (s : Sys Val) : Prop where
  fresh : ∀ t x, s.tx? t = some x → ∀ row ∈ x.created, s.row? row.workflowId = none
  disjoint : ∀ t u x y, t ≠ u → s.tx? t = some x → s.tx? u = some y → ∀ row ∈ x.created,
    ∀ row' ∈ y.created, row'.workflowId ≠ row.workflowId

theorem Sys.effect_row {t : Nat} {x : Tx} {stmt : Stmt} {row : WorkflowRecord}
    (h : (s.effect d t x stmt).row? = some row) :
    s.row? row.workflowId = none ∧ s.keyFree t row.workflowId = true := by
  cases stmt <;> simp only [Sys.effect] at h <;> repeat' split at h
  all_goals simp_all [Effect.row?]
  all_goals subst h; simp_all [newRow]

theorem Step.created_cases {l : Label Val} (h : Step d s l s') {u : Nat} {x' : Tx}
    (hx : s'.tx? u = some x') {row : WorkflowRecord} (hr : row ∈ x'.created) :
    (∃ x, s.tx? u = some x ∧ row ∈ x.created)
      ∨ (l = .execute u ∧ s.row? row.workflowId = none
        ∧ s.keyFree u row.workflowId = true) := by
  rcases h.tx_cases hx with ⟨hx, -⟩ | ⟨_, _, _, -, -, -, rfl⟩
      | ⟨x, stmt, rest, hl, hx₀, hrest, hafter⟩
  · exact .inl ⟨x', hx, hr⟩
  · cases hr
  · rcases Tx.after_cases hafter with ⟨_, -, rfl⟩ | ⟨-, rfl⟩ | ⟨hp, rfl⟩
    · cases hr
    · exact .inl ⟨x, hx₀, hr⟩
    · rcases List.mem_append.mp hr with hr | hr
      · exact .inl ⟨x, hx₀, hr⟩
      · exact .inr ⟨hl, Sys.effect_row (by simpa using hr)⟩

theorem Step.keys_ok {l : Label Val} (hstep : Step d s l s') (h : s.KeysOk) : s'.KeysOk := by
  constructor
  · intro t x' hx' row hrow
    rcases hstep.tables_cases with hs | ⟨u, task, y, txn, k, rfl, hth, -, -, hs'⟩
    · rw [hs.row?]
      rcases hstep.created_cases hx' hrow with ⟨x, hx, hrow⟩ | ⟨-, hnone, -⟩
      · exact h.fresh t x hx row hrow
      · exact hnone
    · rcases hstep.created_cases hx' hrow with ⟨x, hx, hrow⟩ | ⟨hl, -, -⟩
      · have htu : t ≠ u := by
          rintro rfl
          exact hstep.ne_commit hx' rfl
        have hnone : Rows.lookup WorkflowRecord.workflowId y.created row.workflowId = none :=
          Rows.lookup_eq_none.mpr fun row' hrow' =>
            h.disjoint t u x y htu hx (Sys.tx?_eq hth) row hrow row' hrow'
        rw [hs', Sys.setThread_row?, Sys.row?_publish, h.fresh t x hx row hrow, hnone]
        rfl
      · cases hl
  · intro t u x' y' htu hx' hy' row hrow row' hrow'
    rcases hstep.created_cases hx' hrow with ⟨x, hx, hrow⟩ | ⟨hl, -, hfree⟩
    · rcases hstep.created_cases hy' hrow' with ⟨y, hy, hrow'⟩ | ⟨-, -, hfree⟩
      · exact h.disjoint t u x y htu hx hy row hrow row' hrow'
      · exact (Sys.keyFree_iff.mp hfree t x row htu hx hrow).symm
    · rcases hstep.created_cases hy' hrow' with ⟨y, hy, hrow'⟩ | ⟨hl', -, -⟩
      · exact Sys.keyFree_iff.mp hfree u y row' (Ne.symm htu) hy hrow'
      · rw [hl] at hl'
        exact absurd (Label.execute.inj hl') htu

theorem keys_ok (hs : Reachable d ok s) : s.KeysOk := by
  refine Reach.invariant ?_ (fun s l s' h _ hl => (Step.of_step hl).keys_ok h) hs
  constructor
  · intro t x hx
    rw [Sys.initial_tx?] at hx
    cases hx
  · intro t u x y _ hx
    rw [Sys.initial_tx?] at hx
    cases hx

/-! ## foreign keys -/

theorem Sys.effect_foreignKey {t : Nat} {x : Tx} {w : String}
    (h : (s.effect d t x (.foreignKey w)).proceeds = true) :
    (s.row? w).isSome = true ∨ ∃ row ∈ x.created, row.workflowId = w := by
  simp only [Sys.effect] at h
  split at h
  · cases h
  · rename_i hex
    rw [Bool.and_eq_true, not_and_or] at hex
    rcases hex with hex | hex
    · left
      rw [Option.isNone_iff_eq_none] at hex
      exact Option.isSome_iff_ne_none.mpr hex
    · right
      simpa using hex

/-- a checked foreign key stays good: the row is committed, or the transaction inserts it itself -/
theorem foreignKey_ok (hs : Reachable d ok s) {t : Nat} {x : Tx} (hx : s.tx? t = some x)
    (hres : x.result = .ok true) {w : String} (hw : Stmt.foreignKey w ∈ x.executed) :
    (s.row? w).isSome = true ∨ ∃ row ∈ x.created, row.workflowId = w := by
  suffices ∀ t x, s.tx? t = some x → x.result = .ok true → ∀ w, Stmt.foreignKey w ∈ x.executed →
      (s.row? w).isSome = true ∨ ∃ row ∈ x.created, row.workflowId = w from
    this t x hx hres w hw
  refine Reach.invariant (I := fun s : Sys Val => ∀ t x, s.tx? t = some x → x.result = .ok true →
    ∀ w, Stmt.foreignKey w ∈ x.executed →
      (s.row? w).isSome = true ∨ ∃ row ∈ x.created, row.workflowId = w) ?_ ?_ hs
  · intro t x hx
    rw [Sys.initial_tx?] at hx
    cases hx
  · intro s l s' ih _ hl t x hx hres w hw
    have hstep := Step.of_step hl
    rcases hstep.tx_cases hx with ⟨hx, -⟩ | ⟨_, _, _, -, -, -, rfl⟩
        | ⟨x₀, stmt, rest, -, hx₀, -, hafter⟩
    · exact (ih t x hx hres w hw).imp hstep.row?_isSome id
    · cases hw
    · rcases Tx.after_cases hafter with ⟨_, -, rfl⟩ | ⟨-, rfl⟩ | ⟨hp, rfl⟩
      · cases hres
      · cases hres
      · have hmono : ∀ row ∈ x₀.created,
            row ∈ (x₀.proceed stmt rest s.nextId (s.effect d t x₀ stmt)).created :=
          fun row hrow => List.mem_append_left _ hrow
        have hold : ((s.row? w).isSome = true ∨ ∃ row ∈ x₀.created, row.workflowId = w) := by
          rcases List.mem_append.mp hw with hw | hw
          · exact ih t x₀ hx₀ hres w hw
          · obtain rfl := List.mem_singleton.mp hw
            exact Sys.effect_foreignKey hp
        exact hold.imp hstep.row?_isSome fun ⟨row, hrow, hid⟩ => ⟨row, hmono row hrow, hid⟩

theorem row_of_event (hs : Reachable d ok s) {e : EventRecord} (he : e ∈ s.events) :
    (s.row? e.workflowId).isSome = true := by
  refine Reach.invariant_of_reach (I := fun s : Sys Val => ∀ e ∈ s.events,
    (s.row? e.workflowId).isSome = true) (by simp [Sys.initial]) ?_ hs e he
  intro s l s' hr ih _ hl e he
  have hstep := Step.of_step hl
  rcases hstep.tables_cases with htab | ⟨t, task, x, txn, k, -, hth, hrest, -, hs'⟩
  · rw [htab.events] at he
    exact hstep.row?_isSome (ih e he)
  · have hx := Sys.tx?_eq hth
    rw [hs'] at he
    rcases (mem_events_publish (t := t)).mp he with he | he
    · exact hstep.row?_isSome (ih e he)
    · obtain ⟨hres, hmem⟩ := (tx_ok hr hx).mem_inserted he
      have hall := (tx_ok hr hx).executed_of_rest hrest hres
      rw [hall] at hmem
      have hfk := Txn.foreignKey_of_entry hmem
      rw [← hall] at hfk
      rcases foreignKey_ok hr hx hres hfk with hrow | ⟨row, hrow, hid⟩
      · exact hstep.row?_isSome hrow
      · rw [hs', Sys.setThread_row?, Sys.row?_publish, Option.isSome_map, Option.isSome_or]
        rw [Bool.or_eq_true]
        right
        rw [Option.isSome_iff_ne_none]
        intro hnone
        exact Rows.lookup_eq_none.mp hnone row hrow hid

theorem created_row (hs : Reachable d ok s) {t : Nat} {x : Tx} (hx : s.tx? t = some x)
    {row : WorkflowRecord} (hr : row ∈ x.created) :
    row.status = .running ∧ row.lockedBy = none := by
  refine tx_invariant (P := fun x => ∀ row ∈ x.created, row.status = .running
    ∧ row.lockedBy = none) (fun txn now => nofun) ?_ hs hx row hr
  intro s t x x' stmt rest ih _ hafter row hr
  rcases Tx.after_cases hafter with ⟨_, -, rfl⟩ | ⟨-, rfl⟩ | ⟨-, rfl⟩
  · cases hr
  · exact ih row hr
  · rcases List.mem_append.mp hr with hr | hr
    · exact ih row hr
    · have hrow : (s.effect d t x stmt).row? = some row := by simpa using hr
      cases stmt <;> simp only [Sys.effect] at hrow <;> repeat' split at hrow
      all_goals simp only [Effect.row?, Option.some.injEq, reduceCtorEq] at hrow
      all_goals subst hrow; exact ⟨rfl, rfl⟩

theorem row_of_publish (hs : Reachable d ok s) {t : Nat} {x : Tx} (hx : s.tx? t = some x)
    {w : String} {row' : WorkflowRecord} (h : (s.publish t x).row? w = some row') :
    (∃ row, s.row? w = some row ∧ row' = rowAfter w x.updates row)
      ∨ (s.row? w = none ∧ ∃ row ∈ x.created, row.workflowId = w ∧ row.status = .running
        ∧ row.lockedBy = none ∧ row' = rowAfter w x.updates row) := by
  rw [Sys.row?_publish] at h
  obtain ⟨row, hrow, rfl⟩ := Option.map_eq_some_iff.mp h
  cases hold : s.row? w with
  | some row₀ =>
    rw [hold, Option.some_or, Option.some.injEq] at hrow
    exact .inl ⟨row, by rw [hrow], rfl⟩
  | none =>
    rw [hold, Option.none_or] at hrow
    have hmem := Rows.mem_of_lookup hrow
    obtain ⟨hstatus, hlocked⟩ := created_row hs hx hmem
    exact .inr ⟨rfl, row, hmem, Rows.key_of_lookup hrow, hstatus, hlocked, rfl⟩

end

end TemporalLight
