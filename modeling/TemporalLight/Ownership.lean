import TemporalLight.Leases

/-!
# Who can take a lease away

A lease is the pair `locked_by`, `locked_until` of a row.  The claim predicate respects it as long
as it has not expired, but no other statement looks at it: suspending, waiting and ending address
the row by its id, so a run that has lost its lease still clears the lease of its successor.

* `lease_step`       one step: only a run of the workflow clears its lease, and no claim gets it;
* `lease_ownership`  hence a lease that is kept alive stays where it is until a run of the workflow
                     suspends, waits or ends;
* `lease_cleared`    the run that does so need not be the one that holds the lease.
-/

namespace TemporalLight
open Runs

section
variable {Val : Type} {d : Deployment Val} {s s' : Sys Val} {ok : Sys Val → Label Val → Prop}

/-- the lease of `w` has not expired -/
def Sys.leaseLive (s : Sys Val) (w : String) : Bool :=
  (s.row? w).any fun row => row.lockedUntil.any fun lockedUntil => s.clock ≤ lockedUntil

/-- the step commits an update of `w` of this kind -/
def Sys.commits (s : Sys Val) (w : String) (kind : RowUpdate → Bool) : Label Val → Bool
  | .commit t => (s.tx? t).any fun x => x.updates.any fun u => u.1 == w && kind u.2
  | _ => false

def RowUpdate.isLock : RowUpdate → Bool
  | .lock _ _ => true
  | _ => false

/-- `claim_next_workflow` returns `w` -/
def Sys.claims (s : Sys Val) (w : String) (l : Label Val) : Bool := s.commits w RowUpdate.isLock l

/-- `w` is suspended, marked WAITING or ended -/
def Sys.releases (s : Sys Val) (w : String) (l : Label Val) : Bool :=
  s.commits w RowUpdate.releases l

def Txn.Releases (w : String) : Txn → Prop
  | .markWorkflowWaiting w' _ => w' = w
  | .updateWorkflowRunAt w' _ => w' = w
  | .completeWorkflow w' _ _ => w' = w
  | .failWorkflow w' _ _ => w' = w
  | _ => False

theorem Sys.commits_iff {w : String} {kind : RowUpdate → Bool} {t : Nat} {x : Tx}
    (hx : s.tx? t = some x) :
    s.commits w kind (.commit t) = true ↔ ∃ u, (w, u) ∈ x.updates ∧ kind u = true := by
  simp only [Sys.commits, hx, Option.any_some, List.any_eq_true, Bool.and_eq_true, beq_iff_eq]
  constructor
  · rintro ⟨⟨w', u⟩, hu, rfl, hk⟩
    exact ⟨u, hu, hk⟩
  · rintro ⟨u, hu, hk⟩
    exact ⟨(w, u), hu, rfl, hk⟩

/-! ## releases -/

theorem leaseAfter_of_none {t : Nat} {lease : String → Option Nat} {w : String}
    {updates : List (String × RowUpdate)} (hlock : ∀ u, (w, u) ∈ updates → u.isLock = false)
    (hw : lease w = none) : leaseAfter t lease updates w = none := by
  rcases leaseAfter_cases t lease updates w with h | ⟨-, worker, lockedUntil, hmem⟩ | ⟨h, -⟩
  · exact h.trans hw
  · cases hlock _ hmem
  · exact h

theorem leaseAfter_of_releases {t : Nat} {lease : String → Option Nat} {w : String}
    {updates : List (String × RowUpdate)} (hlock : ∀ u, (w, u) ∈ updates → u.isLock = false)
    {u : RowUpdate} (hu : (w, u) ∈ updates) (hrel : u.releases = true) :
    leaseAfter t lease updates w = none := by
  induction updates generalizing lease with
  | nil => cases hu
  | cons v updates ih =>
    have hlock' : ∀ u, (w, u) ∈ updates → u.isLock = false :=
      fun u hu => hlock u (List.mem_cons_of_mem _ hu)
    show leaseAfter t _ updates w = none
    rcases List.mem_cons.mp hu with rfl | hu
    · refine leaseAfter_of_none hlock' ?_
      cases u <;> simp_all [RowUpdate.releases, RowUpdate.leaseAfter]
    · exact ih hlock' hu

theorem releases_origin (hs : Reachable d ok s) {t : Nat} {task : Task Val} {x : Tx}
    (hth : s.threads[t]? = some ⟨task, some x, true⟩) {w : String} {u : RowUpdate}
    (hu : (w, u) ∈ x.updates) (hrel : u.releases = true) :
    (∃ r, task = .run r ∧ r.workflowId = w) ∧ x.txn.Releases w := by
  have hfrom := update_origin hs hth rfl hu
  cases u with
  | waiting wait => exact ⟨hfrom.1, hfrom.2 ▸ rfl⟩
  | runAt time => exact ⟨hfrom.1, hfrom.2 ▸ rfl⟩
  | terminal status =>
    refine ⟨hfrom.1, ?_⟩
    rcases hfrom.2 with ⟨_, _, htxn, -⟩ | ⟨_, _, htxn, -⟩ <;> exact htxn ▸ rfl
  | _ => cases hrel

/-! ## one step -/

theorem claim_expired (hs : Reachable d ok s) {l : Label Val} (hstep : Step d s l s') {w : String}
    (hlive : s.leaseLive w = true) {b : Nat} (hb : s.lease w = some b) : s.claims w l = false := by
  rw [Bool.eq_false_iff]
  intro hclaim
  cases hstep with
  | @commit t task x txn k hth hrest hq =>
    have hx := Sys.tx?_eq hth
    obtain ⟨u, hu, hlock⟩ := (Sys.commits_iff hx).mp hclaim
    cases u <;> cases hlock
    obtain ⟨row, -, htxn, rfl⟩ := update_origin hs hth rfl hu
    obtain ⟨hres, -⟩ := (tx_ok hs hx).mem_updates hu
    obtain ⟨hrow, hcl⟩ := claimed_row hs hx hrest htxn hres
    obtain ⟨row', worker, -, hrow', hby, -⟩ := (lease_ok hs _).1 b hb
    rw [hrow] at hrow'
    obtain rfl := Option.some.inj hrow'
    -- the row is locked, so the claim found it expired
    rcases (claimable_iff hcl).2 with hnone | ⟨lockedUntil, huntil, hlt⟩
    · rw [hnone] at hby
      cases hby
    · have hnow := now_le_clock hs hx
      have hle : s.clock ≤ lockedUntil := by simpa [Sys.leaseLive, hrow, huntil] using hlive
      omega
  | _ => cases hclaim

theorem lease_step (hs : Reachable d ok s) {l : Label Val} (hstep : Step d s l s') {w : String}
    (hclaim : s.claims w l = false) {b : Nat} (hb : s.lease w = some b) :
    (s.releases w l = false → s'.lease w = some b)
      ∧ (s.releases w l = true → s'.lease w = none ∧ ∃ t r x, l = .commit t
        ∧ s.threads[t]? = some ⟨.run r, some x, true⟩ ∧ r.workflowId = w ∧ x.txn.Releases w) := by
  refine ⟨fun hrel => ?_, fun hrel => ?_⟩
  · rcases hstep.tables_cases with htab | ⟨t, task, x, txn, k, rfl, hth, -, -, rfl⟩
    · rw [htab.lease, hb]
    · have hx := Sys.tx?_eq hth
      show leaseAfter t s.lease x.updates w = some b
      rcases leaseAfter_cases t s.lease x.updates w with h | ⟨-, worker, lockedUntil, hmem⟩
          | ⟨-, u, hmem, hu⟩
      · rw [h, hb]
      · rw [Sys.claims, (Sys.commits_iff hx).mpr ⟨_, hmem, rfl⟩] at hclaim
        cases hclaim
      · rw [Sys.releases, (Sys.commits_iff hx).mpr ⟨u, hmem, hu⟩] at hrel
        cases hrel
  · cases hstep with
    | @commit t task x txn k hth hrest hq =>
      have hx := Sys.tx?_eq hth
      obtain ⟨u, hu, hr⟩ := (Sys.commits_iff hx).mp hrel
      obtain ⟨⟨r, rfl, hw⟩, htxn⟩ := releases_origin hs hth hu hr
      refine ⟨leaseAfter_of_releases (fun v hv => ?_) hu hr, t, r, x, rfl, hth, hw, htxn⟩
      by_contra hlock
      rw [Bool.not_eq_false] at hlock
      rw [Sys.claims, (Sys.commits_iff hx).mpr ⟨v, hv, hlock⟩] at hclaim
      cases hclaim
    | _ => cases hrel

/-! ## whole runs -/

theorem lease_kept (hs : Reachable d (fun _ _ => True) s) {w : String} {b : Nat}
    (hb : s.lease w = some b)
    (h : Reach (Sys.step d) (fun s l => s.leaseLive w && !s.releases w l) s s') :
    Reachable d (fun _ _ => True) s' ∧ s'.lease w = some b := by
  refine Reach.invariant (I := fun s' => Reachable d (fun _ _ => True) s' ∧ s'.lease w = some b)
    ⟨hs, hb⟩ ?_ h
  rintro s₁ l s₂ ⟨hr, hb₁⟩ hl hstep
  simp only [Bool.and_eq_true, Bool.not_eq_true'] at hl
  have hclaim := claim_expired hr (Step.of_step hstep) hl.1 hb₁
  exact ⟨.step l hr trivial hstep, (lease_step hr (Step.of_step hstep) hclaim hb₁).1 hl.2⟩

/-- **A lease that is kept alive is only cleared by a run of the workflow that suspends, waits or
ends**, whichever run that is; until then no claim returns the workflow. -/
theorem lease_ownership (hs : Reachable d (fun _ _ => True) s) {w : String} {b : Nat}
    (hb : s.lease w = some b)
    (h : Reach (Sys.step d) (fun s l => s.leaseLive w && !s.releases w l) s s') :
    (∃ row worker, s'.row? w = some row ∧ row.lockedBy = some worker ∧ s'.Runs b worker w)
      ∧ ∀ l s'', s'.leaseLive w = true → s'.step d l = some s'' →
        s'.claims w l = false
        ∧ (s'.releases w l = false → s''.lease w = some b)
        ∧ (s'.releases w l = true → (∀ row, s''.row? w = some row → row.lockedBy = none)
          ∧ ∃ t r x, l = .commit t ∧ s'.threads[t]? = some ⟨.run r, some x, true⟩
            ∧ r.workflowId = w ∧ x.txn.Releases w) := by
  obtain ⟨hr, hb'⟩ := lease_kept hs hb h
  obtain ⟨row, worker, -, hrow, hby, -, hruns⟩ := (lease_ok hr w).1 b hb'
  refine ⟨⟨row, worker, hrow, hby, hruns⟩, fun l s'' hlive hstep => ?_⟩
  have hclaim := claim_expired hr (Step.of_step hstep) hlive hb'
  obtain ⟨hkeep, hclear⟩ := lease_step hr (Step.of_step hstep) hclaim hb'
  refine ⟨hclaim, hkeep, fun hrel => ?_⟩
  obtain ⟨hnone, hthread⟩ := hclear hrel
  exact ⟨fun row hrow => (lease_ok (.step l hr trivial hstep) w).2 row hnone hrow, hthread⟩

end

/-! ## a run that comes back -/

def sleeps : Deployment Json :=
  .plain fun _ => some fun _ delivered =>
    if delivered.isEmpty then .sleep 0 0 0 0 else .ret (.ok .null)

/-- worker A claims the workflow and writes the SLEEP event; its lease lapses, and B claims it -/
def stalls : List (Label Json) :=
  [.request (.startWorkflow .w "n" (.obj []))] ++ transact 0 3
    ++ [.claim "A" (newRow "w" "n" none 0)] ++ transact 1 2
    ++ [.read 1, .advance 1, .read 1] ++ transact 1 2 ++ [.read 1, .tick 31000000,
      .claim "B" { newRow "w" "n" none 0 with lockedBy := some "A", lockedUntil := some 30000000 }]
    ++ transact 2 2

def claimsAfter : List (Label Json) := [.claim "C" (newRow "w" "n" none 0)] ++ transact 3 2

/-- the row of `w` is locked by this worker -/
def Sys.lockedBy (s : Sys Json) (w : String) (worker : Option String) : Bool :=
  (s.row? w).any fun row => row.lockedBy == worker

/-- thread `t` is a run of `w` by this worker and has not ended -/
def Sys.runsFor (s : Sys Json) (t : Nat) (worker w : String) : Bool :=
  (s.run? t).any fun r => r.worker == worker && r.workflowId == w && !r.isEnded

/-- B's run goes on under its lease, as long as A's run does not come back -/
theorem lease_ownership_once : ∃ s' : Sys Json, s'.leaseLive "w" = true
    ∧ ∃ row worker, s'.row? "w" = some row ∧ row.lockedBy = some worker ∧ s'.Runs 2 worker "w" := by
  have hrun : (follow (Sys.step sleeps) (fun _ _ => true) Sys.initial stalls).any (fun s =>
      s.lease "w" == some 2 && (follow (Sys.step sleeps)
        (fun s l => s.leaseLive "w" && !s.releases "w" l) s [.read 2, .advance 2]).any
        (·.leaseLive "w")) = true := by
    decide +kernel
  obtain ⟨s, hs, h⟩ := Reach.exists_of_follow _ hrun
  obtain ⟨hb, h⟩ := Bool.and_eq_true_iff.mp h
  obtain ⟨s', hs', hlive⟩ := Reach.exists_of_follow _ h
  exact ⟨s', hlive,
    (lease_ownership (hs.mono fun _ _ _ => trivial) (beq_iff_eq.mp hb) hs').1⟩

/-- A's run comes back and suspends, which clears B's live lease; then C claims the workflow while
B is still running it. -/
theorem lease_cleared : ∃ s s' s'' : Sys Json,
    Reachable sleeps (fun _ _ => true) s ∧ s.lockedBy "w" (some "B") = true
      ∧ s.leaseLive "w" = true ∧ s.runsFor 1 "A" "w" = true ∧ s.runsFor 2 "B" "w" = true
      ∧ s.step sleeps (.commit 1) = some s' ∧ s'.lockedBy "w" none = true
      ∧ Reach (Sys.step sleeps) (fun _ _ => true) s' s'' ∧ s''.lockedBy "w" (some "C") = true
      ∧ s''.runsFor 2 "B" "w" = true ∧ s''.clock = s.clock := by
  let live (s : Sys Json) : Bool := s.lockedBy "w" (some "B") && s.leaseLive "w"
    && s.runsFor 1 "A" "w" && s.runsFor 2 "B" "w"
  let claimed (clock : Int) (s : Sys Json) : Bool := s.lockedBy "w" (some "C")
    && s.runsFor 2 "B" "w" && s.clock == clock
  have hrun : (follow (Sys.step sleeps) (fun _ _ => true) Sys.initial
      (stalls ++ [.begin 1, .execute 1])).any (fun s => live s
        && (s.step sleeps (.commit 1)).any fun s' => s'.lockedBy "w" none
          && (follow (Sys.step sleeps) (fun _ _ => true) s' claimsAfter).any (claimed s.clock))
      = true := by
    decide +kernel
  obtain ⟨s, hs, h⟩ := Reach.exists_of_follow _ hrun
  obtain ⟨hlive, h⟩ := Bool.and_eq_true_iff.mp h
  obtain ⟨s', hs', h⟩ := (Option.any_eq_true _ _).mp h
  obtain ⟨hfree, h⟩ := Bool.and_eq_true_iff.mp h
  obtain ⟨s'', hs'', hclaimed⟩ := Reach.exists_of_follow _ h
  simp only [live, claimed, Bool.and_eq_true, beq_iff_eq] at hlive hclaimed
  exact ⟨s, s', s'', hs, hlive.1.1.1, hlive.1.1.2, hlive.1.2, hlive.2, hs', hfree, hs'',
    hclaimed.1.1, hclaimed.1.2, hclaimed.2⟩

end TemporalLight
