import TemporalLight.Origins

/-!
# Claims and leases

* `selected_row`  the row that a claim has selected does not change before the claim commits;
* `lease_ok`      `lease w = some t` says that thread `t` runs `w` and that the row is locked by
                  its worker; a row without a holder is not locked;
* `lease_cases`   how a lease can change in one step.
-/

namespace TemporalLight
open Runs Resumption

section
variable {Val : Type} {d : Deployment Val} {s s' : Sys Val} {ok : Sys Val → Label Val → Prop}

/-! ## claims -/

theorem Sys.effect_selectClaimable {t : Nat} {x : Tx} {row : WorkflowRecord}
    (h : (s.effect d t x (.selectClaimable row)).proceeds = true) :
    s.row? row.workflowId = some row ∧ claimable x.now row = true := by
  simp only [Sys.effect] at h
  split at h
  · rename_i hsel
    simp only [Sys.selectable, Bool.and_eq_true, beq_iff_eq] at hsel
    exact ⟨hsel.1.1.1, hsel.1.1.2⟩
  · cases h

theorem now_le_clock (hs : Reachable d ok s) {t : Nat} {x : Tx} (hx : s.tx? t = some x) :
    x.now ≤ s.clock := by
  refine Reach.invariant (I := fun s : Sys Val => ∀ t x, s.tx? t = some x → x.now ≤ s.clock)
    ?_ ?_ hs t x hx
  · intro t x hx
    rw [Sys.initial_tx?] at hx
    cases hx
  · intro s l s' ih _ hl t x hx
    have hstep := Step.of_step hl
    refine le_trans ?_ hstep.clock_le
    rcases hstep.tx_cases hx with ⟨hx, -⟩ | ⟨_, _, _, -, -, -, rfl⟩
        | ⟨x₀, stmt, rest, -, hx₀, -, hafter⟩
    · exact ih t x hx
    · exact le_refl _
    · have hnow : x.now = x₀.now := by
        rcases Tx.after_cases hafter with ⟨_, -, rfl⟩ | ⟨-, rfl⟩ | ⟨-, rfl⟩ <;> rfl
      rw [hnow]
      exact ih t x₀ hx₀

/-- **A selected row stays as it is until its claim commits.**  No other transaction gets the
lock it would need to change it. -/
theorem selected_row (hs : Reachable d ok s) {t : Nat} {x : Tx} (hx : s.tx? t = some x)
    {row : WorkflowRecord} (hrow : Stmt.selectClaimable row ∈ x.executed) :
    s.row? row.workflowId = some row ∧ claimable x.now row = true := by
  refine Reach.invariant_of_reach (I := fun s : Sys Val => ∀ t x, s.tx? t = some x → ∀ row,
    Stmt.selectClaimable row ∈ x.executed →
      s.row? row.workflowId = some row ∧ claimable x.now row = true) ?_ ?_ hs t x hx row hrow
  · intro t x hx
    rw [Sys.initial_tx?] at hx
    cases hx
  · intro s l s' hr ih _ hl t x hx row hrow
    have hstep := Step.of_step hl
    rcases hstep.tables_cases with htab | ⟨u, task, y, txn, k, rfl, hth, -, -, hs'⟩
    · rw [htab.row?]
      rcases hstep.tx_cases hx with ⟨hx, -⟩ | ⟨_, _, _, -, -, -, rfl⟩
          | ⟨x₀, stmt, rest, -, hx₀, -, hafter⟩
      · exact ih t x hx row hrow
      · cases hrow
      · rcases Tx.after_cases hafter with ⟨_, -, rfl⟩ | ⟨-, rfl⟩ | ⟨hp, rfl⟩
        · exact ih t x₀ hx₀ row hrow
        · exact ih t x₀ hx₀ row hrow
        · rcases List.mem_append.mp hrow with hrow | hrow
          · exact ih t x₀ hx₀ row hrow
          · obtain rfl := List.mem_singleton.mp hrow
            have hsel := Sys.effect_selectClaimable hp
            exact hsel
    · -- the transaction that commits is another one and cannot write to the row
      have htu : t ≠ u := by
        rintro rfl
        exact hstep.ne_commit hx rfl
      have hx₀ : s.tx? t = some x := by
        rcases hstep.tx_cases hx with ⟨hx, -⟩ | ⟨_, _, _, hl, -⟩ | ⟨_, _, _, hl, -⟩
        · exact hx
        · cases hl
        · cases hl
      obtain ⟨hsel, hclaim⟩ := ih t x hx₀ row hrow
      have hframe := frame_of_forUpdate hr (Ne.symm htu) (Sys.tx?_eq hth) hx₀
        (Tx.mem_locks hrow rfl)
      have hcreated : ∀ row' ∈ y.created, row'.workflowId ≠ row.workflowId := by
        intro row' hrow' hid
        have := (keys_ok hr).fresh u y (Sys.tx?_eq hth) row' hrow'
        rw [hid, hsel] at this
        cases this
      rw [hs', Sys.setThread_row?, Sys.row?_publish_of_forall_ne hframe.1 hcreated]
      exact ⟨hsel, hclaim⟩

theorem claimed_row (hs : Reachable d ok s) {t : Nat} {x : Tx} (hx : s.tx? t = some x)
    (hrest : x.rest = []) {worker : String} {row : WorkflowRecord}
    (htxn : x.txn = .claimNextWorkflow worker row) (hres : x.result = .ok true) :
    s.row? row.workflowId = some row ∧ claimable x.now row = true := by
  have hexec := (tx_ok hs hx).executed_of_rest hrest hres
  refine selected_row hs hx ?_
  rw [hexec, htxn]
  exact List.mem_cons_self

/-- a transaction all of whose statements go through, whenever their turn comes -/
theorem result_ok (hs : Reachable d ok s) {P : Txn → Prop}
    (hgoes : ∀ (s : Sys Val) (t : Nat) (x : Tx) (stmt : Stmt), Reachable d ok s → s.tx? t = some x →
      P x.txn → stmt ∈ x.txn.statements →
        (∀ error, s.effect d t x stmt ≠ .raised error) ∧ stmt.mayReturn = false)
    {t : Nat} {x : Tx} (hx : s.tx? t = some x) (hP : P x.txn) : x.result = .ok true := by
  refine Reach.invariant_of_reach (I := fun s : Sys Val => ∀ t x, s.tx? t = some x → P x.txn →
    x.result = .ok true) ?_ ?_ hs t x hx hP
  · intro t x hx
    rw [Sys.initial_tx?] at hx
    cases hx
  intro s l s' hr ih _ hl t x hx hP
  rcases (Step.of_step hl).tx_cases hx with ⟨hx, -⟩ | ⟨_, _, _, -, -, -, rfl⟩
      | ⟨x₀, stmt, rest, rfl, hx₀, hrest, hafter⟩
  · exact ih t x hx hP
  · rfl
  · have horder := (tx_ok hr hx₀).order ((tx_ok hr hx₀).result_of_rest hrest)
    rw [hrest] at horder
    have hmem : stmt ∈ x₀.txn.statements := horder ▸ List.mem_append_right _ List.mem_cons_self
    rcases Tx.after_cases hafter with ⟨error, heff, rfl⟩ | ⟨heff, rfl⟩ | ⟨-, rfl⟩
    · exact absurd heff ((hgoes s t x₀ stmt hr hx₀ hP hmem).1 error)
    · have hreturn := (hgoes s t x₀ stmt hr hx₀ hP hmem).2
      rw [Sys.mayReturn_of_effect heff] at hreturn
      cases hreturn
    · exact ih t x₀ hx₀ hP

theorem Sys.effect_update_ne {t : Nat} {x : Tx} {w : String} {change : Change} (error : PyExc) :
    s.effect d t x (.update w change) ≠ .raised error := by
  simp only [Sys.effect]
  split <;> (intro h; cases h)

theorem claim_ok (hs : Reachable d ok s) {t : Nat} {x : Tx} (hx : s.tx? t = some x)
    {worker : String} {row : WorkflowRecord} (htxn : x.txn = .claimNextWorkflow worker row) :
    x.result = .ok true := by
  refine result_ok hs (P := (· = .claimNextWorkflow worker row)) ?_ hx htxn
  intro s t x stmt _ _ htxn hmem
  rw [htxn] at hmem
  rcases List.mem_cons.mp hmem with rfl | hmem
  · refine ⟨fun error => ?_, rfl⟩
    simp only [Sys.effect]
    split <;> (intro h; cases h)
  · obtain rfl := List.mem_singleton.mp hmem
    exact ⟨Sys.effect_update_ne, rfl⟩

theorem claimable_iff {now : Int} {row : WorkflowRecord} (h : claimable now row = true) :
    row.status = .running ∧ (row.lockedBy = none ∨ ∃ lockedUntil,
      row.lockedUntil = some lockedUntil ∧ lockedUntil < now) := by
  simp only [claimable, Bool.and_eq_true, Bool.or_eq_true, beq_iff_eq, Option.isNone_iff_eq_none,
    Option.any_eq_true, decide_eq_true_eq] at h
  exact ⟨h.1.2, h.2⟩

/-! ## the task of a run stays a run of its workflow -/

theorem Run.next?_record {r : Run Val} {n : (q : Call Val) × (q.Reply → Run Val)}
    (hn : r.next? = some n) (reply : n.1.Reply) :
    (n.2 reply).record = r.record ∧ (n.2 reply).worker = r.worker := by
  unfold Run.next? at hn
  cases hc : r.code with
  | ended => rw [hc] at hn; cases hn
  | _ =>
    rw [hc] at hn
    obtain ⟨m, -, rfl⟩ := Option.map_eq_some_iff.mp hn
    exact ⟨rfl, rfl⟩

theorem Run.resume_record (rt : Runtime Val) (r : Run Val) :
    (r.resume rt).record = r.record ∧ (r.resume rt).worker = r.worker := by
  unfold Run.resume
  simp only []
  split <;> exact ⟨rfl, rfl⟩

theorem Run.advance_record {rt : Runtime Val} {r r' : Run Val} (h : r.advance rt = some r') :
    r'.record = r.record ∧ r'.worker = r.worker := by
  unfold Run.advance at h
  cases hc : r.code with
  | starting c =>
    rw [hc] at h
    obtain ⟨v, -, rfl⟩ := Option.map_eq_some_iff.mp h
    match v with
    | .ok (some (program, ctx)) => exact Run.resume_record rt _
    | .ok none => exact ⟨rfl, rfl⟩
    | .error e => exact ⟨rfl, rfl⟩
  | stepping c =>
    rw [hc] at h
    obtain ⟨v, -, rfl⟩ := Option.map_eq_some_iff.mp h
    exact Run.resume_record rt _
  | ending c =>
    rw [hc] at h
    obtain ⟨v, -, rfl⟩ := Option.map_eq_some_iff.mp h
    exact ⟨rfl, rfl⟩
  | ended => rw [hc] at h; cases h

/-- thread `t` runs the workflow `w` for a worker -/
def Sys.Runs (s : Sys Val) (t : Nat) (worker w : String) : Prop :=
  ∃ r tx alive, s.threads[t]? = some ⟨.run r, tx, alive⟩ ∧ r.workflowId = w ∧ r.worker = worker

theorem Sys.Runs.step {l : Label Val} (hstep : Step d s l s') {t : Nat} {worker w : String}
    (h : s.Runs t worker w) : s'.Runs t worker w := by
  obtain ⟨r, tx, alive, hth, rfl, rfl⟩ := h
  obtain ⟨hlt, -⟩ := List.getElem?_eq_some_iff.mp hth
  have hlen : s.threads.length ≤ s'.threads.length := by
    cases hstep <;> simp [Sys.setThread, Sys.spawn, Sys.setNextId, Sys.publish]
  obtain ⟨⟨task', tx', alive'⟩, hth'⟩ : ∃ th', s'.threads[t]? = some th' :=
    ⟨_, List.getElem?_eq_getElem (lt_of_lt_of_le hlt hlen)⟩
  suffices ∃ r', task' = .run r' ∧ r'.record = r.record ∧ r'.worker = r.worker by
    obtain ⟨r', rfl, hrec, hworker⟩ := this
    exact ⟨r', tx', alive', hth', congrArg WorkflowRecord.workflowId hrec, hworker⟩
  rcases hstep.task_cases hth' with ⟨th, hth₀, htask⟩ | ⟨ht, -⟩
      | ⟨task, tx₀, q, k, reply, hth₀, hq, htask, -⟩ | ⟨r₀, r', -, hth₀, hadv, htask⟩
  · rw [hth] at hth₀
    obtain rfl := Option.some.inj hth₀
    exact ⟨r, htask, rfl, rfl⟩
  · omega
  · rw [hth] at hth₀
    obtain ⟨rfl, -⟩ := Thread.mk.inj (Option.some.inj hth₀)
    obtain ⟨m, hm, hk⟩ := Option.map_eq_some_iff.mp hq
    obtain ⟨rfl, hk⟩ := Sigma.mk.inj hk
    obtain rfl := eq_of_heq hk
    exact ⟨_, htask, Run.next?_record hm reply⟩
  · rw [hth] at hth₀
    obtain ⟨hr, -⟩ := Thread.mk.inj (Option.some.inj hth₀)
    obtain rfl := Task.run.inj hr
    exact ⟨r', htask, Run.advance_record hadv⟩

/-! ## leases -/

def RowUpdate.releases : RowUpdate → Bool
  | .waiting _ => true
  | .runAt _ => true
  | .terminal _ => true
  | _ => false

theorem leaseAfter_cases (t : Nat) (lease : String → Option Nat)
    (updates : List (String × RowUpdate)) (w : String) :
    leaseAfter t lease updates w = lease w
    ∨ (leaseAfter t lease updates w = some t
        ∧ ∃ worker lockedUntil, (w, .lock worker lockedUntil) ∈ updates)
    ∨ (leaseAfter t lease updates w = none ∧ ∃ u, (w, u) ∈ updates ∧ u.releases = true) := by
  induction updates generalizing lease with
  | nil => exact .inl rfl
  | cons u updates ih =>
    have hnext : leaseAfter t lease (u :: updates)
        = leaseAfter t (fun w => if w = u.1 then u.2.leaseAfter t (lease w) else lease w) updates :=
      rfl
    rw [hnext]
    rcases ih (fun w => if w = u.1 then u.2.leaseAfter t (lease w) else lease w)
        with h | ⟨h, worker, lockedUntil, hmem⟩ | ⟨h, v, hmem, hv⟩
    · rw [h]
      by_cases hw : w = u.1
      · subst hw
        obtain ⟨w, u⟩ := u
        simp only [if_true]
        cases u with
        | lock worker lockedUntil =>
          exact .inr (.inl ⟨rfl, worker, lockedUntil, List.mem_cons_self⟩)
        | wake now => exact .inl rfl
        | extendLock lockedUntil => exact .inl rfl
        | _ => exact .inr (.inr ⟨rfl, _, List.mem_cons_self, rfl⟩)
      · simp only [if_neg hw]
        exact .inl trivial
    · exact .inr (.inl ⟨h, worker, lockedUntil, List.mem_cons_of_mem _ hmem⟩)
    · exact .inr (.inr ⟨h, v, List.mem_cons_of_mem _ hmem, hv⟩)

/-- **How a lease changes in one step**: not at all, by a claim of a claimable row, or because a
run of the workflow gives it back. -/
theorem lease_cases (hs : Reachable d ok s) {l : Label Val} (hstep : Step d s l s') (w : String) :
    s'.lease w = s.lease w
    ∨ (∃ t task x worker row, l = .commit t ∧ s.threads[t]? = some ⟨task, some x, true⟩
        ∧ task = .claiming worker row ∧ row.workflowId = w ∧ s.row? w = some row
        ∧ claimable x.now row = true ∧ s'.lease w = some t)
    ∨ (∃ t r x u, l = .commit t ∧ s.threads[t]? = some ⟨.run r, some x, true⟩
        ∧ r.workflowId = w ∧ (w, u) ∈ x.updates ∧ u.releases = true ∧ s'.lease w = none) := by
  rcases hstep.tables_cases with htab | ⟨t, task, x, txn, k, rfl, hth, hrest, -, rfl⟩
  · exact .inl (congrFun htab.lease w)
  · have hx := Sys.tx?_eq hth
    rcases leaseAfter_cases t s.lease x.updates w with h | ⟨h, worker, lockedUntil, hmem⟩
        | ⟨h, u, hmem, hu⟩
    · exact .inl h
    · obtain ⟨row, htask, htxn, hw⟩ := update_origin hs hth rfl hmem
      obtain ⟨hres, -⟩ := (tx_ok hs hx).mem_updates hmem
      obtain ⟨hrow, hclaim⟩ := claimed_row hs hx hrest htxn hres
      exact .inr (.inl ⟨t, task, x, worker, row, rfl, hth, htask, hw.symm, hw ▸ hrow, hclaim, h⟩)
    · have hrun : ∃ r, task = .run r ∧ r.workflowId = w := by
        have hfrom := update_origin hs hth rfl hmem
        cases u <;> simp only [RowUpdate.releases, reduceCtorEq] at hu <;> exact hfrom.1
      obtain ⟨r, rfl, hr⟩ := hrun
      exact .inr (.inr ⟨t, r, x, u, rfl, hth, hr, hmem, hu, h⟩)

/-! ## the lease of `w` agrees with the row -/

def Sys.LeaseOk (s : Sys Val) : Prop := ∀ w,
  (∀ t, s.lease w = some t → ∃ row worker lockedUntil, s.row? w = some row
    ∧ row.lockedBy = some worker ∧ row.lockedUntil = some lockedUntil ∧ s.Runs t worker w)
  ∧ ∀ row, s.lease w = none → s.row? w = some row → row.lockedBy = none

theorem lease_ok (hs : Reachable d ok s) : s.LeaseOk := by
  refine Reach.invariant_of_reach (I := Sys.LeaseOk) ?_ ?_ hs
  · intro w
    refine ⟨nofun, fun row _ hrow => ?_⟩
    rw [Sys.initial_row?] at hrow
    cases hrow
  intro s l s' hr ih _ hl w
  have hstep := Step.of_step hl
  obtain ⟨hheld, hfree⟩ := ih w
  rcases hstep.tables_cases with htab | ⟨t, task, x, txn, k, rfl, hth, hrest, hq, rfl⟩
  · rw [htab.lease, htab.row?]
    refine ⟨fun t ht => ?_, hfree⟩
    obtain ⟨row, worker, lockedUntil, hrow, hby, huntil, hruns⟩ := hheld t ht
    exact ⟨row, worker, lockedUntil, hrow, hby, huntil, hruns.step hstep⟩
  · have hx := Sys.tx?_eq hth
    set s₁ := (s.publish t x).setThread t ⟨k x.result, none, true⟩ with hs₁
    -- what the row and the holder have to do with each other, kept by every update
    let P : WorkflowRecord → Option Nat → Prop := fun row holder =>
      (∀ u, holder = some u → ∃ worker lockedUntil, row.lockedBy = some worker
        ∧ row.lockedUntil = some lockedUntil ∧ s₁.Runs u worker w)
      ∧ (holder = none → row.lockedBy = none)
    have hkeep : ∀ u, (w, u) ∈ x.updates → ∀ row holder, P row holder →
        P (u.apply row) (u.leaseAfter t holder) := by
      intro u hu row holder hP
      cases u with
      | lock worker lockedUntil =>
        obtain ⟨row₀, rfl, -, hw⟩ := update_origin hr hth rfl hu
        cases hq
        refine ⟨fun u hu => ?_, nofun⟩
        obtain rfl := Option.some.inj hu
        have hnew : s₁.threads[t]? = some ⟨.run (Run.claimed (d.workflowRegistry t) worker row₀),
            none, true⟩ := by
          rw [hs₁, Sys.getElem?_setThread (s := s.publish t x) hth, if_pos rfl]
        exact ⟨worker, lockedUntil, rfl, rfl, _, none, true, hnew, hw.symm, rfl⟩
      | waiting wait => exact ⟨nofun, fun _ => rfl⟩
      | runAt time => exact ⟨nofun, fun _ => rfl⟩
      | terminal status => exact ⟨nofun, fun _ => rfl⟩
      | wake now => exact hP
      | extendLock lockedUntil =>
        refine ⟨fun u hu => ?_, hP.2⟩
        obtain ⟨worker, lockedUntil', hby, -, hruns⟩ := hP.1 u hu
        exact ⟨worker, lockedUntil, hby, rfl, hruns⟩
    have hold : ∀ row, s.row? w = some row → P row (s.lease w) := by
      intro row hrow
      refine ⟨fun u hu => ?_, fun hnone => hfree row hnone hrow⟩
      obtain ⟨row', worker, lockedUntil, hrow', hby, huntil, hruns⟩ := hheld u hu
      rw [hrow] at hrow'
      obtain rfl := Option.some.inj hrow'
      exact ⟨worker, lockedUntil, hby, huntil, hruns.step hstep⟩
    have hnew : ∀ row : WorkflowRecord, s.row? w = none → row.lockedBy = none →
        P row (s.lease w) := by
      intro row hrow hby
      refine ⟨fun u hu => ?_, fun _ => hby⟩
      obtain ⟨row', -, -, hrow', -⟩ := hheld u hu
      rw [hrow] at hrow'
      cases hrow'
    have hafter : ∀ row', s₁.row? w = some row' → P row' (s₁.lease w) := by
      intro row' hrow'
      rcases row_of_publish hr hx hrow' with ⟨row, hrow, rfl⟩ | ⟨hnone, row, -, -, -, hby, rfl⟩
      · exact rowAfter_lease_induction hkeep (hold row hrow)
      · exact rowAfter_lease_induction hkeep (hnew row hnone hby)
    refine ⟨fun u hu => ?_, fun row' hnone hrow' => (hafter row' hrow').2 hnone⟩
    have hrow : (s.row? w).isSome = true := by
      rcases lease_cases hr hstep w with h | ⟨_, _, _, _, _, _, _, _, _, hrow, -⟩
          | ⟨_, _, _, _, _, _, _, _, _, hnone⟩
      · obtain ⟨row, -, -, hrow, -⟩ := hheld u (h ▸ hu)
        rw [hrow]
        rfl
      · rw [hrow]
        rfl
      · rw [hnone] at hu
        cases hu
    obtain ⟨row', hrow'⟩ := Option.isSome_iff_exists.mp (hstep.row?_isSome hrow)
    obtain ⟨worker, lockedUntil, hby, huntil, hruns⟩ := (hafter row' hrow').1 u hu
    exact ⟨row', worker, lockedUntil, hrow', hby, huntil, hruns⟩

/-- **A workflow with a lease is running.** -/
theorem running_of_lease (hs : Reachable d ok s) {w : String} {t : Nat} {row : WorkflowRecord}
    (hlease : s.lease w = some t) (hrow : s.row? w = some row) : row.status = .running := by
  refine Reach.invariant_of_reach (I := fun s : Sys Val => ∀ w t row, s.lease w = some t →
    s.row? w = some row → row.status = .running) (by simp [Sys.initial]) ?_ hs w t row hlease hrow
  intro s l s' hr ih _ hl w u row' hlease hrow'
  have hstep := Step.of_step hl
  rcases hstep.tables_cases with htab | ⟨t, task, x, txn, k, rfl, hth, hrest, hq, rfl⟩
  · rw [htab.lease] at hlease
    rw [htab.row?] at hrow'
    exact ih w u row' hlease hrow'
  · have hx := Sys.tx?_eq hth
    -- a claim locks a row that was running before
    let claims : Prop := ∃ worker lockedUntil, (w, RowUpdate.lock worker lockedUntil) ∈ x.updates
    have hclaims : claims → ∀ row, s.row? w = some row → row.status = .running := by
      rintro ⟨worker, lockedUntil, hmem⟩ row hrow
      obtain ⟨row₀, -, htxn, rfl⟩ := update_origin hr hth rfl hmem
      obtain ⟨hres, -⟩ := (tx_ok hr hx).mem_updates hmem
      obtain ⟨hrow₀, hclaim⟩ := claimed_row hr hx hrest htxn hres
      rw [hrow₀] at hrow
      obtain rfl := Option.some.inj hrow
      exact (claimable_iff hclaim).1
    have hnoclaim : ∀ r : Run Val, task = .run r → ¬ claims := by
      rintro r rfl ⟨worker, lockedUntil, hmem⟩
      obtain ⟨row₀, htask, -⟩ := update_origin hr hth rfl hmem
      cases htask
    let P : WorkflowRecord → Option Nat → Prop := fun row holder =>
      (claims → row.status = .running) ∧ (holder ≠ none → row.status = .running)
    have hkeep : ∀ u, (w, u) ∈ x.updates → ∀ row holder, P row holder →
        P (u.apply row) (u.leaseAfter t holder) := by
      intro u hu row holder hP
      have hfrom := update_origin hr hth rfl hu
      cases u with
      | lock worker lockedUntil =>
        have hrun : row.status = .running := hP.1 ⟨worker, lockedUntil, hu⟩
        exact ⟨fun _ => hrun, fun _ => hrun⟩
      | wake now => exact ⟨fun _ => rfl, fun _ => rfl⟩
      | extendLock lockedUntil => exact hP
      | _ =>
        obtain ⟨⟨r, htask, -⟩, -⟩ := hfrom
        exact ⟨fun hc => absurd hc (hnoclaim r htask), fun hne => absurd rfl hne⟩
    have hafter : P row' (leaseAfter t s.lease x.updates w) := by
      rcases row_of_publish hr hx hrow' with ⟨row, hrow, rfl⟩ | ⟨hnone, row, -, -, hrun, -, rfl⟩
      · refine rowAfter_lease_induction hkeep ⟨fun hc => hclaims hc row hrow, fun hne => ?_⟩
        obtain ⟨v, hv⟩ := Option.ne_none_iff_exists'.mp hne
        exact ih w v row hv hrow
      · exact rowAfter_lease_induction hkeep ⟨fun _ => hrun, fun _ => hrun⟩
    refine hafter.2 ?_
    show leaseAfter t s.lease x.updates w ≠ none
    have hlease' : leaseAfter t s.lease x.updates w = some u := hlease
    rw [hlease']
    exact Option.some_ne_none u

/-! ## conditions on the steps of a run -/

def Sys.hasStatus (s : Sys Val) (w : String) (status : WorkflowStatus) : Bool :=
  (s.row? w).any fun row => row.status == status

/-- the thread that takes the step, when the step is one of its own calls -/
def Label.caller? : Label Val → Option Nat
  | .begin t => some t
  | .execute t => some t
  | .commit t => some t
  | .read t => some t
  | .body t _ => some t
  | _ => none

/-- the lease of `w` belongs to thread `t` and has not lapsed -/
def Sys.holdsLease (s : Sys Val) (t : Nat) (w : String) : Bool :=
  s.lease w == some t
    && (s.row? w).any fun row => row.lockedUntil.any fun lockedUntil => s.clock ≤ lockedUntil

/-- thread `t` is a run that has neither crashed nor ended -/
def Sys.isRunning (s : Sys Val) (t : Nat) : Bool :=
  match s.thread? t with
  | some ⟨.run r, _, _⟩ => !r.isEnded
  | _ => false

/-- no live run's lease has lapsed -/
def Sys.leasesLive (s : Sys Val) : Bool :=
  s.workflows.all fun row => (s.lease row.workflowId).all fun t =>
    !s.isRunning t || row.lockedUntil.any fun lockedUntil => s.clock ≤ lockedUntil

/-- the run of thread `t` -/
def Sys.run? (s : Sys Val) (t : Nat) : Option (Run Val) :=
  match s.threads[t]? with
  | some ⟨.run r, _, _⟩ => some r
  | _ => none

theorem Sys.initial_run? (t : Nat) : (Sys.initial : Sys Val).run? t = none := rfl

/-- a call of a run is made under a live lease of the run -/
def Sys.underLease (s : Sys Val) (l : Label Val) : Bool :=
  l.caller?.all fun t => (s.run? t).all fun r => s.holdsLease t r.workflowId

theorem Sys.run?_eq {t : Nat} {r : Run Val} {tx : Option Tx} {alive : Bool}
    (h : s.threads[t]? = some ⟨.run r, tx, alive⟩) : s.run? t = some r := by
  unfold Sys.run?
  rw [h]

theorem Sys.thread_of_run? {t : Nat} {r : Run Val} (h : s.run? t = some r) :
    ∃ tx alive, s.threads[t]? = some ⟨.run r, tx, alive⟩ := by
  unfold Sys.run? at h
  split at h
  · rename_i r' tx alive hth
    obtain rfl := Option.some.inj h
    exact ⟨tx, alive, hth⟩
  · cases h

/-- a workflow that is run has a row -/
theorem row_of_run (hs : Reachable d ok s) {t : Nat} {r : Run Val} (hr : s.run? t = some r) :
    (s.row? r.workflowId).isSome = true := by
  refine Reach.invariant_of_reach (I := fun s : Sys Val => ∀ t r tx alive,
    s.threads[t]? = some ⟨.run r, tx, alive⟩ → (s.row? r.workflowId).isSome = true)
    (by simp [Sys.initial]) ?_ hs t r _ _ (Sys.thread_of_run? hr).choose_spec.choose_spec
  intro s l s' hr ih _ hl t r' tx alive hth'
  have hstep := Step.of_step hl
  refine hstep.row?_isSome ?_
  rcases hstep.task_cases hth' with ⟨⟨task, tx₀, alive₀⟩, hth, heq⟩ | ⟨-, hnew⟩
      | ⟨task, tx₀, q, k, reply, hth, hq, heq, hans⟩ | ⟨r, r'', -, hth, hadv, heq⟩
  · obtain rfl : .run r' = task := heq
    exact ih t r' tx₀ alive₀ hth
  · cases hnew
  · cases task with
    | claiming worker row =>
      obtain ⟨rfl, hk⟩ := Sigma.mk.inj (Option.some.inj hq)
      obtain rfl := eq_of_heq hk
      obtain rfl := Task.run.inj heq
      cases hans with
      | @commit task' x txn k hth₀ hrest =>
        rw [hth] at hth₀
        obtain ⟨rfl, rfl, -⟩ := Thread.mk.inj (Option.some.inj hth₀)
        obtain ⟨-, k', hk'⟩ := txn_of_thread hr hth rfl
        have htxn : x.txn = .claimNextWorkflow worker row :=
          (Call.transaction.inj (Sigma.mk.inj (Option.some.inj hk')).1).symm
        have hx := Sys.tx?_eq hth
        obtain ⟨hrow, -⟩ := claimed_row hr hx hrest htxn (claim_ok hr hx htxn)
        show (s.row? row.workflowId).isSome = true
        rw [hrow]
        rfl
      | read hreply => cases hreply
    | run r =>
      obtain ⟨m, hm, hmk⟩ := Option.map_eq_some_iff.mp hq
      obtain ⟨rfl, hk⟩ := Sigma.mk.inj hmk
      obtain rfl := eq_of_heq hk
      obtain rfl := Task.run.inj heq
      have hrec := (Run.next?_record hm reply).1
      show (s.row? (m.2 reply).record.workflowId).isSome = true
      rw [hrec]
      exact ih t r _ _ hth
    | request r c =>
      obtain ⟨m, hm, hmk⟩ := Option.map_eq_some_iff.mp hq
      obtain ⟨rfl, hk⟩ := Sigma.mk.inj hmk
      obtain rfl := eq_of_heq hk
      cases heq
    | heartbeat w c =>
      obtain ⟨m, hm, hmk⟩ := Option.map_eq_some_iff.mp hq
      obtain ⟨rfl, hk⟩ := Sigma.mk.inj hmk
      obtain rfl := eq_of_heq hk
      cases heq
  · obtain rfl := Task.run.inj heq
    show (s.row? r'.record.workflowId).isSome = true
    rw [(Run.advance_record hadv).1]
    exact ih t r _ _ hth

theorem Sys.lease_of_underLease {t : Nat} {r : Run Val} {tx : Option Tx} {alive : Bool}
    {l : Label Val} (h : s.underLease l = true) (hl : l.caller? = some t)
    (hth : s.threads[t]? = some ⟨.run r, tx, alive⟩) : s.lease r.workflowId = some t := by
  unfold Sys.underLease Sys.holdsLease at h
  rw [hl, Option.all_some, Sys.run?_eq hth, Option.all_some, Bool.and_eq_true, beq_iff_eq] at h
  exact h.1

end

end TemporalLight
