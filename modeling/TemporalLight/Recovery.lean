import Mathlib.Data.List.MinMax
import TemporalLight.Stalls

/-!
# A workflow that is RUNNING can be claimed

However many workers have died, and whatever they held: once their locks have lapsed the rows are
claimed one after another, the one that is due first before the others, so every workflow that is
RUNNING gets its turn.

* `quiet_of_crash`     when all threads have died no transaction is open, and no table has changed
* `claim_of_dueFirst`  the row that is due first can be claimed
* `claimable_again`    hence every RUNNING workflow can be
-/

namespace TemporalLight
open Runs

section
variable {Val : Type} {d : Deployment Val} {s s' : Sys Val} {ok : Sys Val → Label Val → Prop}
  {row : WorkflowRecord}

/-- any step may be taken -/
abbrev anyStep (_ : Sys Val) (_ : Label Val) : Prop := True

theorem Sys.thread?_eq {t : Nat} {th : Thread Val} (hth : s.threads[t]? = some th)
    (halive : th.alive = true) : s.thread? t = some th := by
  rw [Sys.thread?, hth]
  exact Option.filter_some_pos halive

/-! ## crashes -/

/-- no transaction is open -/
def Sys.Quiet (s : Sys Val) : Prop := ∀ t, s.tx? t = none

/-- **All threads may die; the tables stay.** -/
theorem quiet_of_crash (hs : Reachable d ok s) :
    ∃ s', Reach (Sys.step d) anyStep s s' ∧ s.SameTables s' ∧ s'.Quiet := by
  suffices ∀ k, ∃ s', Reach (Sys.step d) anyStep s s' ∧ s.SameTables s'
      ∧ s'.threads.length = s.threads.length ∧ (∀ t, k ≤ t → s'.threads[t]? = s.threads[t]?)
      ∧ ∀ t < k, s'.tx? t = none by
    obtain ⟨s', hreach, htab, hlength, -, hquiet⟩ := this s.threads.length
    refine ⟨s', hreach, htab, fun t => ?_⟩
    by_cases ht : t < s.threads.length
    · exact hquiet t ht
    · rw [Sys.tx?, List.getElem?_eq_none (by omega)]
      rfl
  intro k
  induction k with
  | zero =>
    refine ⟨s, .start, ⟨rfl, rfl, rfl, rfl⟩, rfl, fun _ _ => rfl, fun t ht => ?_⟩
    exact absurd ht (Nat.not_lt_zero t)
  | succ k ih =>
    obtain ⟨s', hreach, htab, hlength, hlater, hquiet⟩ := ih
    by_cases hopen : ∃ th, s.threads[k]? = some th ∧ th.alive = true
    · obtain ⟨th, hth, halive⟩ := hopen
      have hth' : s'.threads[k]? = some th := (hlater k (Nat.le_refl k)).trans hth
      have hstep : s'.step d (.crash k) = some (s'.setThread k ⟨th.task, none, false⟩) := by
        rw [Sys.step, Sys.thread?_eq hth' halive]
        rfl
      refine ⟨_, .step _ hreach trivial hstep,
        ⟨htab.workflows, htab.events, htab.lease, htab.waits⟩, ?_, fun t ht => ?_, fun t ht => ?_⟩
      · rw [Sys.setThread, List.length_set, hlength]
      · rw [Sys.getElem?_setThread hth', if_neg (by omega)]
        exact hlater t (by omega)
      · rw [Sys.tx?_setThread hth']
        split
        · rfl
        · exact hquiet t (by omega)
    · refine ⟨s', hreach, htab, hlength, fun t ht => hlater t (by omega), fun t ht => ?_⟩
      rcases Nat.lt_or_eq_of_le (Nat.le_of_lt_succ ht) with ht | rfl
      · exact hquiet t ht
      · rw [Sys.tx?, hlater t (Nat.le_refl t)]
        cases hth : s.threads[t]? with
        | none => rfl
        | some th =>
          obtain ⟨task, tx, alive⟩ := th
          cases tx with
          | none => rfl
          | some x => exact absurd ⟨_, hth, (txn_of_thread hs hth rfl).1⟩ hopen

/-! ## one claim -/

def Sys.extend (s : Sys Val) (th : Thread Val) : Sys Val := { s with threads := s.threads ++ [th] }

theorem Sys.extend_thread? {th : Thread Val} (h : th.alive = true) :
    (s.extend th).thread? s.threads.length = some th := by
  refine Sys.thread?_eq ?_ h
  rw [Sys.extend, List.getElem?_append_right (Nat.le_refl _), Nat.sub_self]
  rfl

theorem Sys.setThread_extend (th th' : Thread Val) :
    (s.extend th).setThread s.threads.length th' = s.extend th' := by
  simp [Sys.setThread, Sys.extend]

theorem Sys.tx?_extend {th : Thread Val} {u : Nat} (h : u ≠ s.threads.length) :
    (s.extend th).tx? u = s.tx? u := by
  rw [Sys.tx?, Sys.tx?, Sys.extend]
  by_cases hu : u < s.threads.length
  · rw [List.getElem?_append_left hu]
  · rw [List.getElem?_eq_none (by simp; omega), List.getElem?_eq_none (by omega)]

theorem Sys.Quiet.lockable_extend (h : s.Quiet) (th : Thread Val) (w : String) (mode : LockMode) :
    (s.extend th).lockable s.threads.length w mode = true := by
  rw [Sys.lockable_iff]
  intro u x m hu hx
  rw [Sys.tx?_extend hu, h u] at hx
  cases hx

/-- the row is due first of all that can be claimed -/
structure Sys.DueFirst (s : Sys Val) (row : WorkflowRecord) : Prop where
  stored : s.row? row.workflowId = some row
  due : claimable s.clock row = true
  first : ∀ other ∈ s.workflows, claimable s.clock other = true → row.runAt ≤ other.runAt

theorem Sys.DueFirst.selectable (h : s.DueFirst row) (hquiet : s.Quiet) (th : Thread Val) :
    (s.extend th).selectable s.threads.length s.clock row = true := by
  unfold Sys.selectable
  rw [hquiet.lockable_extend, show (s.extend th).row? row.workflowId = some row from h.stored,
    h.due, beq_self_eq_true]
  refine List.all_eq_true.mpr fun other hother => ?_
  cases hclaim : claimable s.clock other with
  | false => rfl
  | true => simpa [hquiet.lockable_extend] using h.first other hother hclaim

def Sys.lockRow (d : Deployment Val) (s : Sys Val) (worker : String) : RowUpdate :=
  .lock worker (s.clock + d.lockDurationSeconds * 1000000)

/-- the thread of a claim, and its transaction after `executed` -/
def Sys.claiming (s : Sys Val) (worker : String) (row : WorkflowRecord) (executed rest : List Stmt)
    (updates : List (String × RowUpdate)) : Sys Val :=
  s.extend ⟨.claiming worker row, some { Tx.start (.claimNextWorkflow worker row) s.clock with
    executed := executed, rest := rest, updates := updates }, true⟩

/-- the tables after the claim, with the run that it starts -/
def Sys.claimed (d : Deployment Val) (s : Sys Val) (worker : String) (row : WorkflowRecord) :
    Sys Val :=
  { s with
    workflows := Rows.modify WorkflowRecord.workflowId row.workflowId (s.lockRow d worker).apply
      s.workflows,
    lease := fun w => if w = row.workflowId then some s.threads.length else s.lease w,
    threads := s.threads ++
      [⟨.run (Run.claimed (d.workflowRegistry s.threads.length) worker row), none, true⟩] }

/-- **The row that is due first can be claimed.** -/
theorem claim_of_dueFirst (hquiet : s.Quiet) (hdue : s.DueFirst row) (worker : String) :
    Reach (Sys.step d) anyStep s (s.claimed d worker row) := by
  have hspawn : s.step d (.claim worker row) = some (s.extend ⟨.claiming worker row, none, true⟩) :=
    rfl
  have hbegin : (s.extend ⟨.claiming worker row, none, true⟩).step d (.begin s.threads.length)
      = some (s.claiming worker row [] (Txn.claimNextWorkflow worker row).statements []) := by
    rw [Sys.step, Sys.extend_thread? rfl]
    show some (Sys.setThread _ _ _) = _
    rw [Sys.setThread_extend]
    rfl
  have hselect : (s.claiming worker row [] (Txn.claimNextWorkflow worker row).statements []).step d
        (.execute s.threads.length)
      = some (s.claiming worker row [.selectClaimable row]
          [.update row.workflowId (.lock worker)] []) := by
    rw [Sys.step, Sys.claiming, Sys.extend_thread? rfl]
    simp only [Tx.start, Txn.statements, Sys.effect, hdue.selectable hquiet, if_true, Tx.after,
      Option.map_some, Sys.setThread_extend]
    rfl
  have hupdate : (s.claiming worker row [.selectClaimable row]
        [.update row.workflowId (.lock worker)] []).step d (.execute s.threads.length)
      = some (s.claiming worker row (Txn.claimNextWorkflow worker row).statements []
          [(row.workflowId, s.lockRow d worker)]) := by
    rw [Sys.step, Sys.claiming, Sys.extend_thread? rfl]
    simp only [Tx.start, Sys.effect, hquiet.lockable_extend, if_true, Tx.after, Option.map_some,
      Sys.setThread_extend]
    rfl
  have hcommit : (s.claiming worker row (Txn.claimNextWorkflow worker row).statements []
        [(row.workflowId, s.lockRow d worker)]).step d (.commit s.threads.length)
      = some (s.claimed d worker row) := by
    rw [Sys.step, Sys.claiming, Sys.extend_thread? rfl]
    refine congrArg some ?_
    simp only [Sys.claimed, Sys.setThread, Sys.publish, Sys.extend, Tx.start, List.append_nil,
      List.set_append_right _ _ (Nat.le_refl _), Nat.sub_self, List.set_cons_zero]
    rfl
  exact .step _ (.step _ (.step _ (.step _ (.step _ .start trivial hspawn) trivial hbegin) trivial
    hselect) trivial hupdate) trivial hcommit

theorem Sys.getElem?_claimed (worker : String) :
    (s.claimed d worker row).threads[s.threads.length]?
      = some ⟨.run (Run.claimed (d.workflowRegistry s.threads.length) worker row), none, true⟩ := by
  rw [Sys.claimed, List.getElem?_append_right (Nat.le_refl _), Nat.sub_self]
  rfl

theorem Sys.Quiet.claimed (h : s.Quiet) (worker : String) : (s.claimed d worker row).Quiet := by
  intro t
  by_cases ht : t = s.threads.length
  · rw [Sys.tx?_eq (ht ▸ Sys.getElem?_claimed worker)]
  · exact (Sys.tx?_extend ht).trans (h t)

theorem Sys.row?_claimed (worker w : String) :
    (s.claimed d worker row).row? w = if w = row.workflowId then
      (s.row? w).map (s.lockRow d worker).apply else s.row? w :=
  Rows.lookup_modify s.workflows w row.workflowId _ fun row => RowUpdate.apply_workflowId _ row

/-- a living run of `w` by `worker` has locked the row -/
def Sys.ClaimedBy (s : Sys Val) (worker w : String) : Prop :=
  (∃ row, s.row? w = some row ∧ row.status = .running ∧ row.lockedBy = some worker)
    ∧ ∃ t r, s.lease w = some t ∧ s.threads[t]? = some ⟨.run r, none, true⟩ ∧ r.workflowId = w
      ∧ r.worker = worker

theorem Sys.DueFirst.claimedBy (h : s.DueFirst row) (worker : String) :
    (s.claimed d worker row).ClaimedBy worker row.workflowId := by
  constructor
  · refine ⟨(s.lockRow d worker).apply row, ?_, (claimable_iff h.due).1, rfl⟩
    rw [Sys.row?_claimed, if_pos rfl, h.stored]
    rfl
  · exact ⟨_, _, if_pos rfl, Sys.getElem?_claimed worker, rfl, rfl⟩

theorem Sys.not_claimable_lockRow (hlock : 0 ≤ d.lockDurationSeconds) (worker : String)
    (row : WorkflowRecord) :
    TemporalLight.claimable s.clock ((s.lockRow d worker).apply row) = false := by
  have hlater : ¬ s.clock + d.lockDurationSeconds * 1000000 < s.clock := by omega
  simp [TemporalLight.claimable, Sys.lockRow, RowUpdate.apply, hlater]

/-! ## one claim after the other -/

theorem exists_dueFirst (hs : Reachable d ok s) {w : String} (hrow : s.row? w = some row)
    (hclaim : claimable s.clock row = true) : ∃ first, s.DueFirst first := by
  have hmem : row ∈ s.workflows.filter (claimable s.clock) :=
    List.mem_filter.mpr ⟨Rows.mem_of_lookup hrow, hclaim⟩
  obtain ⟨first, hfirst⟩ : ∃ first,
      (s.workflows.filter (claimable s.clock)).argmin WorkflowRecord.runAt = some first := by
    refine Option.ne_none_iff_exists'.mp fun hnone => ?_
    rw [List.argmin_eq_none.mp hnone] at hmem
    cases hmem
  obtain ⟨hin, hdue⟩ := List.mem_filter.mp (List.argmin_mem hfirst)
  refine ⟨first, Rows.lookup_of_mem (workflows_ok hs).1 hin, hdue, fun other hother hclaim => ?_⟩
  exact List.le_of_mem_argmin (List.mem_filter.mpr ⟨hother, hclaim⟩) hfirst

/-- **A row that can be claimed is claimed, after those that are due before it.** -/
theorem claim_of_claimable (hlock : 0 ≤ d.lockDurationSeconds) (worker : String) {w : String}
    (hs : Reachable d anyStep s) (hquiet : s.Quiet) (hrow : s.row? w = some row)
    (hclaim : claimable s.clock row = true) :
    ∃ s', Reach (Sys.step d) anyStep s s' ∧ s'.ClaimedBy worker w := by
  induction hn : s.workflows.countP (claimable s.clock) using Nat.strong_induction_on
    generalizing s with
  | _ n ih =>
    obtain ⟨first, hfirst⟩ := exists_dueFirst hs hrow hclaim
    have hreach := claim_of_dueFirst (d := d) hquiet hfirst worker
    by_cases hw : w = first.workflowId
    · subst hw
      exact ⟨_, hreach, hfirst.claimedBy worker⟩
    · have hlt : (s.claimed d worker first).workflows.countP (claimable s.clock) < n := by
        rw [← hn]
        refine Rows.countP_modify_lt (fun row _ => Sys.not_claimable_lockRow hlock worker row)
          (Rows.mem_of_lookup hfirst.stored) rfl hfirst.due
      have hrow' : (s.claimed d worker first).row? w = some row := by
        rw [Sys.row?_claimed, if_neg hw, hrow]
      obtain ⟨s', hreach', hclaimed⟩ := ih _ hlt (hs.trans hreach) (hquiet.claimed worker) hrow'
        hclaim rfl
      exact ⟨s', hreach.trans hreach', hclaimed⟩

theorem claimable_after (hs : Reachable d ok s) {w : String} (hrow : s.row? w = some row)
    (hstatus : row.status = .running) :
    ∃ duration : Nat, claimable (s.clock + duration) row = true := by
  have hlater (lockedUntil : Int) : ∃ duration : Nat,
      row.runAt ≤ s.clock + duration ∧ lockedUntil < s.clock + duration :=
    ⟨(row.runAt - s.clock).toNat + (lockedUntil - s.clock).toNat + 1, by omega, by omega⟩
  cases hlease : s.lease w with
  | none =>
    obtain ⟨duration, hdue, -⟩ := hlater 0
    refine ⟨duration, ?_⟩
    rw [claimable, (lease_ok hs w).2 row hlease hrow, hstatus, decide_eq_true hdue]
    rfl
  | some t =>
    obtain ⟨row', worker, lockedUntil, hrow', -, huntil, -⟩ := (lease_ok hs w).1 t hlease
    obtain rfl := Option.some.inj (hrow.symm.trans hrow')
    obtain ⟨duration, hdue, hlapsed⟩ := hlater lockedUntil
    refine ⟨duration, ?_⟩
    rw [claimable, huntil, hstatus, decide_eq_true hdue, Option.any_some, decide_eq_true hlapsed,
      Bool.or_true]
    rfl

/-- **From every state that is reached, a RUNNING workflow can be claimed.**  The workers that hold
rows or have transactions open may all have died. -/
theorem claimable_again (hlock : 0 ≤ d.lockDurationSeconds) (hs : Reachable d ok s) {w : String}
    (hrow : s.row? w = some row) (hstatus : row.status = .running) (worker : String) :
    ∃ s', Reach (Sys.step d) anyStep s s' ∧ s'.ClaimedBy worker w := by
  have hs : Reachable d anyStep s := hs.mono fun _ _ _ => trivial
  obtain ⟨s₁, hreach₁, htab, hquiet⟩ := quiet_of_crash hs
  have hs₁ := hs.trans hreach₁
  have hrow₁ : s₁.row? w = some row := htab.row?.trans hrow
  obtain ⟨duration, hclaim⟩ := claimable_after hs₁ hrow₁ hstatus
  have htick : Reach (Sys.step d) anyStep s₁ { s₁ with clock := s₁.clock + duration } :=
    .step (.tick duration) .start trivial rfl
  obtain ⟨s', hreach, hclaimed⟩ := claim_of_claimable hlock worker (hs₁.trans htick) hquiet hrow₁
    hclaim
  exact ⟨s', (hreach₁.trans htick).trans hreach, hclaimed⟩

end

/-! ## worker A dies

It has locked the row and written half of its first transaction.
-/

def diesAtWork : List (Label Json) :=
  [.request (.startWorkflow .w "n" (.obj []))] ++ transact 0 3
    ++ [.claim "A" (newRow "w" "n" none 0)] ++ transact 1 2
    ++ [.read 1, .advance 1, .read 1, .begin 1, .execute 1, .crash 1]

def Sys.lockedByA (s : Sys Json) : Bool :=
  (s.row? "w").any fun row => row.status == .running && row.lockedBy == some "A"

theorem claimable_again_once : ∃ s s' : Sys Json, s.lockedByA = true
    ∧ Reach (Sys.step sleeps) anyStep s s' ∧ s'.ClaimedBy "B" "w" := by
  have hrun : (follow (Sys.step sleeps) (fun _ _ => true) Sys.initial diesAtWork).any
      Sys.lockedByA = true := by
    decide +kernel
  obtain ⟨s, hs, h⟩ := Reach.exists_of_follow _ hrun
  obtain ⟨row, hrow, hlocked⟩ := (Option.any_eq_true _ _).mp h
  obtain ⟨hstatus, -⟩ := Bool.and_eq_true_iff.mp hlocked
  obtain ⟨s', hreach, hclaimed⟩ := claimable_again (by decide) hs hrow (beq_iff_eq.mp hstatus) "B"
  exact ⟨s, s', h, hreach, hclaimed⟩

end TemporalLight
