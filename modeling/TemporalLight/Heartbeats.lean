import TemporalLight.Children
import TemporalLight.Exclusion

/-!
# Heartbeats keep the leases of living runs

`_workflow_lock_heartbeat_loop` sleeps for an interval and extends the lock, again and again until
its run has ended.  The new end of a lock counts from the begin of the transaction that sets it, and
transactions of runs that have lost the row may still come in between.

`Timed` is the system with one more thing to remember: when each row was last locked.  A step is
`punctual` if no time passes that would leave a transaction open for longer than `delay`, or a
living run without a heartbeat for longer than `interval`.

* `until_of_update`  an end of a lock counts from the begin of its transaction at least
* `live_ok`          what the clock, the last locking and the end of a lock have to do with each
                     other
* `leases_live`      so no lease of a living run lapses, if the locks are long enough
-/

namespace TemporalLight
open Runs

/-! ## when a row was last locked -/

structure Timed (Val : Type) where
  sys : Sys Val
  /-- the time of the last commit that has set the end of the row's lock -/
  relocked : String → Int

def RowUpdate.until? : RowUpdate → Option Int
  | .lock _ lockedUntil => some lockedUntil
  | .extendLock lockedUntil => some lockedUntil
  | _ => none

def Txn.extends (w : String) : Txn → Bool
  | .extendWorkflowLock w' => w' == w
  | _ => false

section
variable {Val : Type}

/-- the step sets the end of the lock of `w` -/
def Sys.relocks (s : Sys Val) (w : String) : Label Val → Bool
  | .commit t => (s.tx? t).any fun x => x.updates.any fun u => u.1 == w && u.2.until?.isSome
  | _ => false

def Timed.initial : Timed Val := ⟨Sys.initial, fun _ => 0⟩

def Timed.step (d : Deployment Val) (s : Timed Val) (l : Label Val) : Option (Timed Val) :=
  (s.sys.step d l).map fun sys =>
    ⟨sys, fun w => if s.sys.relocks w l then s.sys.clock else s.relocked w⟩

/-- `p` holds of all transactions -/
def Sys.allTxs (s : Sys Val) (p : Tx → Bool) : Bool :=
  (List.range s.threads.length).all fun t => (s.tx? t).all p

theorem Sys.allTxs_spec {s : Sys Val} {p : Tx → Bool} (h : s.allTxs p = true) {t : Nat} {x : Tx}
    (hx : s.tx? t = some x) : p x = true := by
  obtain ⟨task, alive, hth⟩ := Sys.tx?_eq_some hx
  have ht : t ∈ List.range s.threads.length :=
    List.mem_range.mpr (List.getElem?_eq_some_iff.mp hth).1
  have hall := List.all_eq_true.mp h t ht
  rw [hx] at hall
  exact hall

/-- at the time `now` the heartbeat of `w` still sleeps, or it extends the lock -/
def Timed.beats (s : Timed Val) (interval now : Int) (w : String) : Bool :=
  decide (now ≤ s.relocked w + interval)
    || (List.range s.sys.threads.length).any fun t => (s.sys.tx? t).any fun x =>
      x.txn.extends w && decide (x.now ≤ s.relocked w + interval)

/-- time passes only as long as all transactions and all heartbeats are in time -/
def Timed.punctual (interval delay : Int) (s : Timed Val) : Label Val → Bool
  | .tick duration =>
    s.sys.allTxs (fun x => decide (s.sys.clock + duration ≤ x.now + delay))
      && s.sys.workflows.all fun row => (s.sys.lease row.workflowId).all fun t =>
        !s.sys.isRunning t || s.beats interval (s.sys.clock + duration) row.workflowId
  | _ => true

variable {d : Deployment Val} {s s' : Sys Val} {ok : Sys Val → Label Val → Prop}

/-! ## the ends of locks -/

theorem Sys.effect_until {t : Nat} {x : Tx} {stmt : Stmt} (hnow : x.now ≤ s.clock)
    (hproceeds : (s.effect d t x stmt).proceeds = true) {w : String} {u : RowUpdate}
    (h : (s.effect d t x stmt).update? = some (w, u)) {lockedUntil : Int}
    (huntil : u.until? = some lockedUntil) :
    x.now + d.lockDurationSeconds * 1000000 ≤ lockedUntil := by
  obtain ⟨-, -, hchange⟩ := Sys.effect_writes hproceeds
  rw [h, Option.map_some] at hchange
  cases stmt with
  | update w' change =>
    simp only [Sys.effect] at h
    split at h
    · obtain ⟨-, rfl⟩ := Prod.mk.inj (Option.some.inj h)
      cases change with
      | lock worker =>
        obtain rfl := Option.some.inj huntil
        omega
      | extendLock =>
        obtain rfl := Option.some.inj huntil
        omega
      | _ => cases huntil
    · cases h
  | _ => cases hchange

/-- **The end of a lock counts from the begin of the transaction at least.** -/
theorem until_of_update (hs : Reachable d ok s) {t : Nat} {x : Tx} (hx : s.tx? t = some x)
    {w : String} {u : RowUpdate} (hu : (w, u) ∈ x.updates) {lockedUntil : Int}
    (huntil : u.until? = some lockedUntil) :
    x.now + d.lockDurationSeconds * 1000000 ≤ lockedUntil := by
  refine Reach.invariant_of_reach (I := fun s : Sys Val => ∀ t x, s.tx? t = some x →
    ∀ w u, (w, u) ∈ x.updates → ∀ lockedUntil, u.until? = some lockedUntil →
      x.now + d.lockDurationSeconds * 1000000 ≤ lockedUntil) ?_ ?_ hs t x hx w u hu lockedUntil
        huntil
  · intro t x hx
    rw [Sys.initial_tx?] at hx
    cases hx
  · intro s l s' hr ih _ hl t x hx w u hu lockedUntil huntil
    rcases (Step.of_step hl).tx_cases hx with ⟨hx, -⟩ | ⟨_, _, _, -, -, -, rfl⟩
        | ⟨x₀, stmt, rest, -, hx₀, -, hafter⟩
    · exact ih t x hx w u hu lockedUntil huntil
    · cases hu
    · have hclock := now_le_clock hr hx₀
      rcases Tx.after_cases hafter with ⟨_, -, rfl⟩ | ⟨-, rfl⟩ | ⟨hproceeds, rfl⟩
      · cases hu
      · exact ih t x₀ hx₀ w u hu lockedUntil huntil
      · rcases List.mem_append.mp hu with hu | hu
        · exact ih t x₀ hx₀ w u hu lockedUntil huntil
        · exact Sys.effect_until hclock hproceeds (Option.mem_toList.mp hu) huntil

/-- a transaction that sets the end of a lock does nothing else -/
theorem updates_of_until (hs : Reachable d ok s) {t : Nat} {x : Tx} (hx : s.tx? t = some x)
    (hrest : x.rest = []) {w : String} {u : RowUpdate} (hu : (w, u) ∈ x.updates)
    (huntil : u.until?.isSome = true) : x.updates = [(w, u)] := by
  obtain ⟨task, alive, hth⟩ := Sys.tx?_eq_some hx
  have hok := tx_ok hs hx
  obtain ⟨hres, -⟩ := hok.mem_updates hu
  have hchanges := hok.changes hres
  rw [hok.executed_of_rest hrest hres] at hchanges
  have hone : ∃ c, x.txn.statements.filterMap Stmt.change? = [c] := by
    have hfrom := update_origin hs hth rfl hu
    cases u with
    | lock worker lockedUntil =>
      obtain ⟨row, -, htxn, -⟩ := hfrom
      rw [htxn]
      exact ⟨_, rfl⟩
    | extendLock lockedUntil =>
      obtain ⟨c, rfl⟩ := hfrom
      have htxn : x.txn = .extendWorkflowLock w := issues_of_thread hs hth rfl
      rw [htxn]
      exact ⟨_, rfl⟩
    | _ => cases huntil
  obtain ⟨c, hc⟩ := hone
  rw [hc] at hchanges
  obtain ⟨u', hu', -⟩ := List.map_eq_singleton_iff.mp hchanges
  rw [hu', List.mem_singleton] at hu
  rw [hu', hu]

/-! ## runs that go on -/

theorem Sys.isRunning_iff {t : Nat} : s.isRunning t = true ↔
    ∃ r tx, s.threads[t]? = some ⟨.run r, tx, true⟩ ∧ r.isEnded = false := by
  unfold Sys.isRunning
  constructor
  · intro h
    split at h
    · rename_i r tx alive hth
      obtain ⟨hth, rfl⟩ := Sys.thread?_eq_some hth
      exact ⟨r, tx, hth, by simpa using h⟩
    · cases h
  · rintro ⟨r, tx, hth, hr⟩
    rw [Sys.thread?, hth]
    show (!r.isEnded) = true
    rw [hr]
    rfl

theorem Run.isEnded_of_next {r : Run Val} {n : (q : Call Val) × (q.Reply → Run Val)}
    (h : r.next? = some n) : r.isEnded = false := by
  unfold Run.next? at h
  unfold Run.isEnded
  cases hc : r.code with
  | ended =>
    rw [hc] at h
    cases h
  | _ => rfl

theorem Run.isEnded_of_advance {rt : Runtime Val} {r r' : Run Val} (h : r.advance rt = some r') :
    r.isEnded = false := by
  unfold Run.advance at h
  unfold Run.isEnded
  cases hc : r.code with
  | ended =>
    rw [hc] at h
    cases h
  | _ => rfl

theorem isRunning_of_step {l : Label Val} (hstep : Step d s l s') {t : Nat} {worker w : String}
    (hruns : s.Runs t worker w) (h : s'.isRunning t = true) : s.isRunning t = true := by
  obtain ⟨r₀, tx₀, alive₀, hth₀, -, -⟩ := hruns
  obtain ⟨r', tx', hth', hended⟩ := Sys.isRunning_iff.mp h
  obtain rfl : alive₀ = true := hstep.alive hth₀ hth' rfl
  refine Sys.isRunning_iff.mpr ⟨r₀, tx₀, hth₀, ?_⟩
  have hsame {task : Task Val} {tx : Option Tx} (hth : s.threads[t]? = some ⟨task, tx, true⟩) :
      Task.run r₀ = task := congrArg Thread.task (Option.some.inj (hth₀.symm.trans hth))
  rcases run_cases hstep (Sys.run?_eq hth') with hr | ⟨_, _, _, _, hth, -, -⟩
      | ⟨r, tx, n, reply, hth, hn, -, -⟩ | ⟨r, -, hth, hadv⟩
  · obtain rfl := Option.some.inj ((Sys.run?_eq hth₀).symm.trans hr)
    exact hended
  · cases hsame hth
  · obtain rfl := Task.run.inj (hsame hth)
    exact Run.isEnded_of_next hn
  · obtain rfl := Task.run.inj (hsame hth)
    exact Run.isEnded_of_advance hadv

/-! ## the invariant -/

/-- what the clock, the last locking and the end of a lock have to do with each other -/
structure Timed.Live (d : Deployment Val) (interval delay : Int) (s : Timed Val) : Prop where
  brief : ∀ t x, s.sys.tx? t = some x → s.sys.clock ≤ x.now + delay
  locked : ∀ w t row lockedUntil, s.sys.lease w = some t → s.sys.row? w = some row →
    row.lockedUntil = some lockedUntil →
      s.relocked w - delay + d.lockDurationSeconds * 1000000 ≤ lockedUntil
  recent : ∀ w t, s.sys.lease w = some t → s.sys.isRunning t = true →
    s.sys.clock ≤ s.relocked w + interval + delay

variable {interval delay : Int} {τ τ' : Timed Val}

theorem Timed.step_sys {l : Label Val} (h : τ.step d l = some τ') :
    τ.sys.step d l = some τ'.sys
      ∧ ∀ w, τ'.relocked w = if τ.sys.relocks w l then τ.sys.clock else τ.relocked w := by
  obtain ⟨sys, hsys, rfl⟩ := Option.map_eq_some_iff.mp h
  exact ⟨hsys, fun w => rfl⟩

theorem brief_step {l : Label Val} (hdelay : 0 ≤ delay) (hstep : Step d s l s')
    (htick : ∀ n, l = .tick n → s.allTxs (fun x => decide (s.clock + n ≤ x.now + delay)) = true)
    (h : ∀ t x, s.tx? t = some x → s.clock ≤ x.now + delay) {t : Nat} {x : Tx}
    (hx : s'.tx? t = some x) : s'.clock ≤ x.now + delay := by
  have hsame (hclock : s'.clock = s.clock) : s'.clock ≤ x.now + delay := by
    rw [hclock]
    rcases hstep.tx_cases hx with ⟨hx, -⟩ | ⟨_, _, _, -, -, -, rfl⟩
        | ⟨x₀, stmt, rest, -, hx₀, -, hafter⟩
    · exact h t x hx
    · show s.clock ≤ s.clock + delay
      omega
    · have hnow : x.now = x₀.now := by
        rcases Tx.after_cases hafter with ⟨_, -, rfl⟩ | ⟨-, rfl⟩ | ⟨-, rfl⟩ <;> rfl
      rw [hnow]
      exact h t x₀ hx₀
  cases hstep with
  | tick n => exact of_decide_eq_true (Sys.allTxs_spec (htick n rfl) hx)
  | read hth hq hreply => exact hsame (Sys.noteLoad_clock _)
  | _ => exact hsame rfl

theorem lease_of_not_relocks {l : Label Val} (hstep : Step d s l s')
    {w : String} (hnot : s.relocks w l = false) {t : Nat} (hlease : s'.lease w = some t) :
    s.lease w = some t := by
  rcases hstep.tables_cases with htab | ⟨u, task, x, txn, k, rfl, hth, hrest, -, rfl⟩
  · rw [← htab.lease]
    exact hlease
  · rcases leaseAfter_cases u s.lease x.updates w with h | ⟨-, worker, lockedUntil, hmem⟩
        | ⟨h, -⟩
    · exact h.symm.trans hlease
    · rw [Sys.relocks, Sys.tx?_eq hth] at hnot
      have hany : (x.updates.any fun u => u.1 == w && u.2.until?.isSome) = true :=
        List.any_eq_true.mpr ⟨_, hmem, by simp [RowUpdate.until?]⟩
      rw [Option.any_some, hany] at hnot
      cases hnot
    · exact absurd (h.symm.trans hlease) (by simp)

/-- the end of the lock after a commit that has set it -/
theorem locked_of_relocks {l : Label Val} (hs : Reachable d ok s) (hstep : Step d s l s')
    (hbrief : ∀ t x, s.tx? t = some x → s.clock ≤ x.now + delay) {w : String}
    (hrelocks : s.relocks w l = true) {row : WorkflowRecord} (hrow : s'.row? w = some row)
    {lockedUntil : Int} (huntil : row.lockedUntil = some lockedUntil) :
    s.clock - delay + d.lockDurationSeconds * 1000000 ≤ lockedUntil := by
  cases hstep with
  | @commit t task x txn k hth hrest hq =>
    have hx := Sys.tx?_eq hth
    rw [Sys.relocks, hx, Option.any_some] at hrelocks
    obtain ⟨⟨w', u⟩, hu, h⟩ := List.any_eq_true.mp hrelocks
    obtain ⟨hw, hsome⟩ := Bool.and_eq_true_iff.mp h
    obtain rfl : w' = w := beq_iff_eq.mp hw
    have hone := updates_of_until hs hx hrest hu hsome
    obtain ⟨v, hv⟩ := Option.isSome_iff_exists.mp hsome
    have hsince := until_of_update hs hx hu hv
    have hnow := hbrief t x hx
    rw [Sys.setThread_row?, Sys.row?_publish, hone] at hrow
    obtain ⟨row₀, -, rfl⟩ := Option.map_eq_some_iff.mp hrow
    have happly : (rowAfter w' [(w', u)] row₀).lockedUntil = some v := by
      show (if w' = w' then u.apply row₀ else row₀).lockedUntil = some v
      rw [if_pos rfl]
      cases u with
      | lock worker until_ => exact hv
      | extendLock until_ => exact hv
      | _ => cases hv
    obtain rfl := Option.some.inj (happly.symm.trans huntil)
    omega
  | _ => cases hrelocks

/-- the end of the lock after a step that has not set it -/
theorem locked_of_not_relocks {l : Label Val} (hs : Reachable d ok s) (hstep : Step d s l s')
    {w : String} (hnot : s.relocks w l = false) {t : Nat} (hlease : s'.lease w = some t)
    {row : WorkflowRecord} (hrow : s'.row? w = some row) :
    ∃ row₀, s.row? w = some row₀ ∧ row.lockedUntil = row₀.lockedUntil := by
  have hlease₀ := lease_of_not_relocks hstep hnot hlease
  obtain ⟨row₀, -, -, hrow₀, -⟩ := (lease_ok hs w).1 t hlease₀
  refine ⟨row₀, hrow₀, ?_⟩
  rcases hstep.tables_cases with htab | ⟨u, task, x, txn, k, rfl, hth, hrest, -, rfl⟩
  · obtain rfl := Option.some.inj ((htab.row?.symm.trans hrow).symm.trans hrow₀)
    rfl
  · have hx := Sys.tx?_eq hth
    rw [Sys.setThread_row?, Sys.row?_publish, hrow₀] at hrow
    obtain rfl := Option.some.inj hrow
    -- whatever clears the end of the lock gives up the lease
    have hkeep : leaseAfter u s.lease x.updates w ≠ none →
        (rowAfter w x.updates row₀).lockedUntil = row₀.lockedUntil := by
      refine rowAfter_lease_induction
        (P := fun row holder => holder ≠ none → row.lockedUntil = row₀.lockedUntil) ?_ fun _ => rfl
      intro u' hu' row holder ih hholder
      rw [Sys.relocks, hx, Option.any_some] at hnot
      have hnone : u'.until?.isSome = false := by
        simpa using List.any_eq_false.mp hnot _ hu'
      cases u' with
      | wake now => exact ih hholder
      | lock worker until_ => cases hnone
      | extendLock until_ => cases hnone
      | _ => exact absurd rfl hholder
    refine hkeep ?_
    rw [show leaseAfter u s.lease x.updates w = some t from hlease]
    exact Option.some_ne_none t

theorem recent_of_punctual (hs : Reachable d ok τ.sys) (hdelay : 0 ≤ delay) {n : Nat}
    (h : τ.punctual interval delay (.tick n) = true) {w : String} {t : Nat}
    (hlease : τ.sys.lease w = some t) (hrun : τ.sys.isRunning t = true) :
    τ.sys.clock + n ≤ τ.relocked w + interval + delay := by
  obtain ⟨hbrief, hbeats⟩ := Bool.and_eq_true_iff.mp h
  obtain ⟨row, -, -, hrow, -⟩ := (lease_ok hs w).1 t hlease
  have hw : row.workflowId = w := Rows.key_of_lookup hrow
  have hbeat := List.all_eq_true.mp hbeats row (Rows.mem_of_lookup hrow)
  rw [hw, hlease, Option.all_some, hrun] at hbeat
  replace hbeat : τ.beats interval (τ.sys.clock + n) w = true := hbeat
  unfold Timed.beats at hbeat
  rcases Bool.or_eq_true_iff.mp hbeat with hsleeps | hextends
  · have hsleeps := of_decide_eq_true hsleeps
    omega
  · obtain ⟨u, -, hu⟩ := List.any_eq_true.mp hextends
    obtain ⟨x, hx, hx'⟩ := (Option.any_eq_true _ _).mp hu
    have hbegan := of_decide_eq_true (Bool.and_eq_true_iff.mp hx').2
    have hopen := of_decide_eq_true (Sys.allTxs_spec hbrief hx)
    omega

theorem Step.clock_cases {l : Label Val} (hstep : Step d s l s') :
    (∃ n, l = .tick n ∧ s'.clock = s.clock + (n : Nat) ∧ ∀ w, s.relocks w l = false)
      ∨ s'.clock = s.clock := by
  cases hstep with
  | tick n => exact .inl ⟨n, rfl, rfl, fun w => rfl⟩
  | read hth hq hreply => exact .inr (Sys.noteLoad_clock _)
  | _ => exact .inr rfl

/-- **Locking, time and heartbeats keep up with each other.** -/
theorem live_ok (hdelay : 0 ≤ delay) (hinterval : 0 ≤ interval) {P : Sys Val → Label Val → Prop}
    (hτ : Reach (Timed.step d) (fun τ l => τ.punctual interval delay l = true ∧ P τ.sys l)
      Timed.initial τ) :
    Reachable d P τ.sys ∧ τ.Live d interval delay := by
  induction hτ with
  | start =>
    refine ⟨.start, fun t x hx => ?_, fun w t row v hlease => ?_, fun w t hlease => ?_⟩
    · rw [show (Timed.initial : Timed Val).sys.tx? t = none from Sys.initial_tx? t] at hx
      cases hx
    · cases hlease
    · cases hlease
  | @step τ τ' l _ hl hstep ih =>
    obtain ⟨hs, hbrief, hlocked, hrecent⟩ := ih
    obtain ⟨hpunctual, hP⟩ := hl
    obtain ⟨hsys, hrelocked⟩ := Timed.step_sys hstep
    have hstep' := Step.of_step hsys
    refine ⟨.step l hs hP hsys, fun t x hx => ?_, fun w t row v hlease hrow hv => ?_,
      fun w t hlease hrun => ?_⟩
    · refine brief_step hdelay hstep' ?_ hbrief hx
      rintro n rfl
      exact (Bool.and_eq_true_iff.mp hpunctual).1
    · rw [hrelocked]
      cases hr : τ.sys.relocks w l with
      | true => exact locked_of_relocks hs hstep' hbrief hr hrow hv
      | false =>
        have hlease₀ := lease_of_not_relocks hstep' hr hlease
        obtain ⟨row₀, hrow₀, hsame⟩ := locked_of_not_relocks hs hstep' hr hlease hrow
        exact hlocked w t row₀ v hlease₀ hrow₀ (hsame.symm.trans hv)
    · rw [hrelocked]
      cases hr : τ.sys.relocks w l with
      | true =>
        rcases hstep'.clock_cases with ⟨n, -, -, hnot⟩ | hclock
        · rw [hnot w] at hr
          cases hr
        · rw [if_pos rfl, hclock]
          omega
      | false =>
        have hlease₀ := lease_of_not_relocks hstep' hr hlease
        obtain ⟨-, worker, -, -, -, -, hruns⟩ := (lease_ok hs w).1 t hlease₀
        have hrun₀ := isRunning_of_step hstep' hruns hrun
        rw [if_neg Bool.false_ne_true]
        rcases hstep'.clock_cases with ⟨n, rfl, hclock, -⟩ | hclock
        · rw [hclock]
          exact recent_of_punctual hs hdelay hpunctual hlease₀ hrun₀
        · rw [hclock]
          exact hrecent w t hlease₀ hrun₀

theorem Timed.Live.leasesLive (h : τ.Live d interval delay) (hs : Reachable d ok τ.sys)
    (hlong : interval + 2 * delay ≤ d.lockDurationSeconds * 1000000) :
    τ.sys.leasesLive = true := by
  refine List.all_eq_true.mpr fun row hmem => ?_
  have hrow : τ.sys.row? row.workflowId = some row := Rows.lookup_of_mem (workflows_ok hs).1 hmem
  cases hlease : τ.sys.lease row.workflowId with
  | none => rfl
  | some t =>
    rw [Option.all_some]
    cases hrun : τ.sys.isRunning t with
    | false => rfl
    | true =>
      obtain ⟨row', -, lockedUntil, hrow', -, huntil, -⟩ := (lease_ok hs _).1 t hlease
      obtain rfl := Option.some.inj (hrow.symm.trans hrow')
      have hlocked := h.locked _ t row lockedUntil hlease hrow huntil
      have hrecent := h.recent _ t hlease hrun
      rw [huntil, Option.any_some]
      show decide (τ.sys.clock ≤ lockedUntil) = true
      exact decide_eq_true (by omega)

/-- **No lease of a living run lapses.**  If heartbeats come at most `interval` after the last
locking and no transaction takes longer than `delay`, a lock of `interval + 2 * delay` is long
enough. -/
theorem leases_live (hdelay : 0 ≤ delay) (hinterval : 0 ≤ interval)
    (hlong : interval + 2 * delay ≤ d.lockDurationSeconds * 1000000)
    {P : Sys Val → Label Val → Prop}
    (hτ : Reach (Timed.step d) (fun τ l => τ.punctual interval delay l = true ∧ P τ.sys l)
      Timed.initial τ) :
    Reachable d (fun s l => s.leasesLive = true ∧ P s l) τ.sys ∧ τ.sys.leasesLive = true := by
  have hlive {τ : Timed Val}
      (hτ : Reach (Timed.step d) (fun τ l => τ.punctual interval delay l = true ∧ P τ.sys l)
        Timed.initial τ) : τ.sys.leasesLive = true := by
    obtain ⟨hs, h⟩ := live_ok hdelay hinterval hτ
    exact h.leasesLive hs hlong
  refine ⟨?_, hlive hτ⟩
  induction hτ with
  | start => exact .start
  | step l hpast hl hstep ih =>
    exact .step l ih ⟨hlive hpast, hl.2⟩ (Timed.step_sys hstep).1

end

/-! ## a run of forty seconds

The lock is for thirty.  A heartbeat comes every ten seconds, and one of them takes two.
-/

def second : Nat := 1000000

/-- the heartbeat of thread 1, as thread `t`, at once -/
def heartbeatOf (t : Nat) : List (Label Json) := .heartbeat 1 :: transact t 1

def runsForLong : List (Label Json) :=
  [.request (.startWorkflow .w "n" (.obj []))] ++ transact 0 3
    ++ [.claim "A" (newRow "w" "n" none 0)] ++ transact 1 2 ++ [.tick (10 * second)]
    ++ heartbeatOf 2 ++ [.tick (10 * second), .heartbeat 1, .begin 3, .tick (2 * second)]
    ++ [.execute 3, .commit 3, .tick (10 * second)] ++ heartbeatOf 4 ++ [.tick (8 * second)]

theorem leases_live_long : ∃ s : Sys Json, s.clock = 40 * second ∧ s.isRunning 1 = true
    ∧ s.lease "w" = some 1 ∧ s.leasesLive = true := by
  have hrun : (follow (Timed.step sleeps) (Timed.punctual (10 * second) (5 * second))
      Timed.initial runsForLong).any (fun τ : Timed Json =>
        decide (τ.sys.clock = 40 * (second : Int)) && τ.sys.isRunning 1
          && τ.sys.lease "w" == some 1) = true := by
    decide +kernel
  obtain ⟨τ, hτ, h⟩ := Reach.exists_of_follow _ hrun
  simp only [Bool.and_eq_true, beq_iff_eq, decide_eq_true_eq] at h
  obtain ⟨⟨hclock, hrunning⟩, hlease⟩ := h
  have hlive := (leases_live (P := fun _ _ => True) (by decide) (by decide) (by decide)
    (hτ.mono fun _ _ hl => ⟨hl, trivial⟩)).2
  exact ⟨τ.sys, hclock, hrunning, hlease, hlive⟩

end TemporalLight
