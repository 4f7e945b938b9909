import TemporalLight.Retries
import TemporalLight.Terminal

/-!
# The backoff of an activity

The time of the next attempt is written to `run_at` and nowhere else.  `run_at` is also the time a
signal or a child's completion sets when it wakes the workflow, and the time of a sleep; and it is
not written yet while the run that has computed it still holds the lease.

* `putsOff_time`        the time is the backoff, counted from the reading of the clock just before
* `holdsOff_step`       what keeps the next attempt from starting, through one step
* `backoff_respected`   no attempt before its time, if `run_at` is kept until then
* `backoff_cut_short`   a signal during the backoff
-/

namespace TemporalLight
open Runs Resumption

section
variable {Val : Type} {d : Deployment Val} {s s' s₀ s₁ : Sys Val} {ok : Sys Val → Label Val → Prop}
  {t i : Nat} {w : String} {f : ActivityFunction Val} {retryAt : Int}

/-! ## the time of the next attempt -/

/-- what the run of thread `t` is about to put off: the workflow, the step, the activity that has
failed with retries left, and the time of its next attempt -/
def Sys.putsOff (s : Sys Val) (t : Nat) : Option (String × Nat × ActivityFunction Val × Int) :=
  (s.run? t).bind fun r => match r.step?, r.program r.delivered, r.next? with
    | some i, .activity f _, some ⟨.transaction (.updateWorkflowRunAt w retryAt), _⟩ =>
      some (w, i, f, retryAt)
    | _, _, _ => none

theorem run_of_putsOff (h : s.putsOff t = some (w, i, f, retryAt)) : ∃ r args n, s.run? t = some r
    ∧ r.step? = some i ∧ r.program r.delivered = .activity f args ∧ r.next? = some n
    ∧ n.1 = .transaction (.updateWorkflowRunAt w retryAt) := by
  obtain ⟨r, hr, hat⟩ := Option.bind_eq_some_iff.mp h
  split at hat
  · rename_i i' f' args w' retryAt' k hi haction hn
    cases hat
    exact ⟨r, args, _, hr, hi, haction, hn, rfl⟩
  · cases hat

/-- the run that has computed the time has its body behind it -/
theorem past_of_putsOff (hs : Reachable d ok s) (h : s.putsOff t = some (w, i, f, retryAt)) :
    ∃ r, s.run? t = some r ∧ r.workflowId = w ∧ ¬ r.MayStart i := by
  obtain ⟨r, args, n, hr, hi, haction, hn, hq⟩ := run_of_putsOff h
  obtain ⟨tx, alive, hth⟩ := Sys.thread_of_run? hr
  have hok : r.Ok d.toRuntime (d.workflowRegistry t) s.loaded := task_ok hs hth
  have hw := (hok.next hn).1
  rw [hq] at hw
  obtain ⟨c, m, hc, hm, hnm⟩ := Run.code_of_next? hn hi
  obtain ⟨v, hv⟩ := phased_of_run hs hr hc
  have hlen : r.delivered.length = i := by simpa [Run.step?, hc] using hi
  have hpast : v.past = true := by
    have hask := hv
    unfold Phased at hask
    rw [pending?_eq_some hm] at hask
    have hask : Call.InPhase (r.program r.delivered) v m.1 := wp_ask hask
    rw [← hnm, hq] at hask
    exact (hask f args haction).1
  refine ⟨r, hr, hw.symm, ?_⟩
  rw [Run.MayStart, hc]
  rintro (hlt | ⟨-, hasks⟩)
  · omega
  · exact hasks (hv.asks_of_past hpast)

theorem Run.resume_action (rt : Runtime Val) (r : Run Val) :
    (r.resume rt).program (r.resume rt).delivered = r.program r.delivered := by
  unfold Run.resume
  dsimp only
  split <;> rfl

theorem time_of_phase {l : Label Val} {q : Call Val} {reply : q.Reply} {v : Phase}
    (hans : Answers s t l q reply s')
    {time : Int} (h : (q.phase v reply).time = some time) : l = .read t ∧ time = s'.clock := by
  cases q with
  | now =>
    cases hans with
    | read hreply =>
      obtain rfl := Option.some.inj hreply
      rw [Sys.setThread_clock, Sys.noteLoad_clock]
      exact ⟨rfl, (Option.some.inj h).symm⟩
  | _ => cases h

/-- **The time of the next attempt is the backoff after the clock.** -/
theorem putsOff_time (hs : Reachable d ok s) {l : Label Val} (hstep : Step d s l s')
    (hbefore : s.putsOff t ≠ some (w, i, f, retryAt))
    (hafter : s'.putsOff t = some (w, i, f, retryAt)) :
    l = .read t ∧ (∃ backoff, timedelta f.backoffSeconds = .ok backoff ∧ retryAt = s'.clock + backoff)
      ∧ ∃ r, s.run? t = some r ∧ r.step? = some i := by
  obtain ⟨r', args, n, hr', hi, haction, hn, hq⟩ := run_of_putsOff hafter
  rcases run_cases hstep hr' with hr | ⟨worker, row, tx, reply, -, -, rfl⟩
      | ⟨r, tx, n₀, reply, hth, hn₀, rfl, hans⟩ | ⟨r, -, -, hadv⟩
  · refine absurd ?_ hbefore
    rw [← hafter, Sys.putsOff, Sys.putsOff, hr, hr']
  · cases hi
  · have hr := Sys.run?_eq hth
    have hi₀ : r.step? = some i := (Run.next?_step hn₀ reply).symm.trans hi
    refine and_assoc.mp ⟨?_, r, hr, hi₀⟩
    unfold Run.next? at hn₀
    cases hc : r.code with
    | stepping c =>
      rw [hc] at hn₀
      obtain ⟨m, hm, rfl⟩ := Option.map_eq_some_iff.mp hn₀
      obtain ⟨m', hm', rfl⟩ := Option.map_eq_some_iff.mp hn
      obtain ⟨q, k⟩ := m
      obtain ⟨v, hv⟩ := phased_of_run hs hr hc
      unfold Phased at hv
      rw [pending?_eq_some hm] at hv
      have hnext : wp (phaseRules (r.program r.delivered)) (k reply) _ (q.phase v reply) :=
        (wp_answer hv rfl).2
      have hk : k reply = .call m'.1 m'.2 := pending?_eq_some hm'
      rw [hk] at hnext
      have hask : Call.InPhase (r.program r.delivered) (q.phase v reply) m'.1 := wp_ask hnext
      have hq : m'.1 = .transaction (.updateWorkflowRunAt w retryAt) := hq
      rw [hq] at hask
      obtain ⟨time, htime, hretry⟩ := (hask f args haction).2
      obtain ⟨hl, rfl⟩ := time_of_phase hans htime
      exact ⟨hl, timeAfter_ok hretry⟩
    | _ =>
      rw [Run.step?, hc] at hi₀
      cases hi₀
  · have hresume : ∀ r₁ : Run Val, r' = r₁.resume d.toRuntime → False := by
      rintro r₁ rfl
      have hphase := Run.resume_phase hn hi
      rw [hq] at hphase
      rw [Run.resume_action] at haction
      cases (hphase f args haction).1
    rcases Run.advance_cases hadv with ⟨_, _, _, -, -, hr'⟩ | ⟨_, _, -, -, hr'⟩ | ⟨rfl, -⟩
    · exact (hresume _ hr').elim
    · exact (hresume _ hr').elim
    · cases hi

/-! ## until then -/

/-- The step does not cut the backoff of thread `t` short: a transaction on `w` begins after
`retryAt`, or it does not take the lease from `t`, does not wake `w` once `t` has given the lease up,
and does not put `w` off to an earlier time. -/
def Sys.keepsBackoff (s : Sys Val) (w : String) (t : Nat) (retryAt : Int) : Label Val → Bool
  | .commit u => (s.tx? u).all fun x => decide (retryAt ≤ x.now) || x.updates.all fun v =>
    v.1 != w || match v.2 with
      | .lock _ _ => s.lease w != some t
      | .wake _ => s.lease w == some t
      | .runAt time => decide (retryAt ≤ time)
      | _ => true
  | _ => true

/-- what the row says keeps it from being claimed before `retryAt` -/
def WorkflowRecord.IsOff (retryAt : Int) (row : WorkflowRecord) : Prop :=
  retryAt ≤ row.runAt ∨ row.status ≠ .running

/-- the next attempt cannot start yet: the run of thread `t` still holds the lease and has its body
behind it, or nobody holds the lease and the row is off -/
def Sys.HoldsOff (s : Sys Val) (w : String) (i t : Nat) (retryAt : Int) : Prop :=
  retryAt ≤ s.clock
  ∨ (s.lease w = some t ∧ ∃ r, s.run? t = some r ∧ ¬ r.MayStart i)
  ∨ (s.lease w = none ∧ ∃ row, s.row? w = some row ∧ row.IsOff retryAt)

theorem Sys.keepsBackoff_update {u : Nat} {x : Tx} (hx : s.tx? u = some x)
    (h : s.keepsBackoff w t retryAt (.commit u) = true) (hnow : ¬ retryAt ≤ x.now) {v : RowUpdate}
    (hv : (w, v) ∈ x.updates) :
    (v.isLock = true → s.lease w ≠ some t) ∧ (v.isWake = true → s.lease w = some t)
      ∧ ∀ time, v = .runAt time → retryAt ≤ time := by
  simp only [Sys.keepsBackoff, hx, Option.all_some, Bool.or_eq_true, decide_eq_true_eq,
    List.all_eq_true, bne_iff_ne] at h
  have hkeep := (h.resolve_left hnow _ hv).resolve_left (fun hne => hne rfl)
  cases v <;> simp_all [RowUpdate.isLock, RowUpdate.isWake]

section
variable {u : Nat} {task : Task Val} {x : Tx}

theorem isOff_apply (hs : Reachable d ok s) (hth : s.threads[u]? = some ⟨task, some x, true⟩)
    {v : RowUpdate} (hv : (w, v) ∈ x.updates) (hwake : v.isWake = false)
    (htime : ∀ time, v = .runAt time → retryAt ≤ time) {row : WorkflowRecord}
    (hrow : v.releases = true ∨ row.IsOff retryAt) : (v.apply row).IsOff retryAt := by
  have hfrom := update_origin hs hth rfl hv
  cases v with
  | wake now => cases hwake
  | waiting wait => exact .inr nofun
  | runAt time => exact .inl (htime time rfl)
  | terminal status =>
    refine .inr ?_
    rcases hfrom.2 with ⟨_, _, -, rfl⟩ | ⟨_, _, -, rfl⟩ <;> exact nofun
  | lock worker until_ => exact hrow.resolve_left nofun
  | extendLock until_ => exact hrow.resolve_left nofun

theorem releases_all (hs : Reachable d ok s) {r : Run Val}
    (hth : s.threads[u]? = some ⟨.run r, some x, true⟩) {v : RowUpdate}
    (hv : (r.workflowId, v) ∈ x.updates) : v.releases = true := by
  have hfrom := update_origin hs hth rfl hv
  cases v with
  | lock worker until_ =>
    obtain ⟨row, htask, -⟩ := hfrom
    cases htask
  | wake now =>
    rcases hfrom with ⟨_, _, _, htask, -⟩ | ⟨r', _, _, htask, -, -, hne, -⟩
    · cases htask
    · exact absurd (congrArg Run.workflowId (Task.run.inj htask).symm) hne
  | extendLock until_ =>
    obtain ⟨c, htask⟩ := hfrom
    cases htask
  | _ => rfl

end

theorem not_claimable {now : Int} {row : WorkflowRecord} (hoff : row.IsOff retryAt)
    (hnow : ¬ retryAt ≤ now) : claimable now row = false := by
  rw [Bool.eq_false_iff]
  intro hclaim
  simp only [claimable, Bool.and_eq_true, decide_eq_true_eq, beq_iff_eq] at hclaim
  rcases hoff with htime | hstatus
  · omega
  · exact hstatus hclaim.1.2

theorem run?_step {l : Label Val} (hstep : Step d s l s') {r : Run Val} (hr : s.run? t = some r) :
    ∃ r', s'.run? t = some r' ∧ r'.workflowId = r.workflowId := by
  obtain ⟨tx, alive, hth⟩ := Sys.thread_of_run? hr
  have hruns : s.Runs t r.worker r.workflowId := ⟨r, tx, alive, hth, rfl, rfl⟩
  obtain ⟨r', tx', alive', hth', hw, -⟩ := hruns.step hstep
  exact ⟨r', Sys.run?_eq hth', hw⟩

theorem holdsOff_step (hs : Reachable d ok s) {l : Label Val} (hstep : Step d s l s')
    (hl : s.keepsBackoff w t retryAt l = true) (h : s.HoldsOff w i t retryAt) :
    s'.HoldsOff w i t retryAt := by
  have hpast : ∀ {r : Run Val}, s.run? t = some r → ¬ r.MayStart i →
      ∃ r', s'.run? t = some r' ∧ ¬ r'.MayStart i := by
    intro r hr hmay
    obtain ⟨r', hr', -⟩ := run?_step hstep hr
    exact ⟨r', hr', fun h => hmay (mayStart_step hstep hr hr' h)⟩
  rcases h with hclock | hoff
  · exact .inl (hclock.trans hstep.clock_le)
  rcases hstep.tables_cases with htab | ⟨u, task, x, txn, k, rfl, hth, hrest, hq, hs'⟩
  · refine .inr (hoff.imp ?_ ?_)
    · rintro ⟨hlease, r, hr, hmay⟩
      exact ⟨(congrFun htab.lease w).trans hlease, hpast hr hmay⟩
    · rintro ⟨hlease, row, hrow, hoff⟩
      exact ⟨(congrFun htab.lease w).trans hlease, row, htab.row?.trans hrow, hoff⟩
  have hx := Sys.tx?_eq hth
  by_cases hnow : retryAt ≤ x.now
  · exact .inl (hnow.trans ((now_le_clock hs hx).trans hstep.clock_le))
  have hkeep : ∀ v, (w, v) ∈ x.updates → _ := fun v hv => Sys.keepsBackoff_update hx hl hnow hv
  have hlease' : s'.lease w = leaseAfter u s.lease x.updates w := by
    rw [hs']
    rfl
  have hrow' : ∀ row, s.row? w = some row → s'.row? w = some (rowAfter w x.updates row) := by
    intro row hrow
    rw [hs', Sys.setThread_row?, Sys.row?_publish, hrow]
    rfl
  refine .inr ?_
  rcases leaseAfter_cases u s.lease x.updates w with hsame | ⟨-, worker, until_, hlock⟩
      | ⟨hnone, v, hv, hrel⟩
  · rw [hsame] at hlease'
    rcases hoff with ⟨hlease, r, hr, hmay⟩ | ⟨hlease, row, hrow, hoff⟩
    · exact .inl ⟨hlease'.trans hlease, hpast hr hmay⟩
    · refine .inr ⟨hlease'.trans hlease, _, hrow' row hrow, ?_⟩
      refine rowAfter_induction (fun v hv row hoff => ?_) hoff
      refine isOff_apply hs hth hv ?_ (hkeep v hv).2.2 (.inr hoff)
      rw [Bool.eq_false_iff]
      intro hwake
      rw [(hkeep v hv).2.1 hwake] at hlease
      cases hlease
  · -- the claim finds the lease with `t`, or the row off
    obtain ⟨row, -, htxn, rfl⟩ := update_origin hs hth rfl hlock
    obtain ⟨hres, -⟩ := (tx_ok hs hx).mem_updates hlock
    obtain ⟨hrow, hclaim⟩ := claimed_row hs hx hrest htxn hres
    rcases hoff with ⟨hlease, -⟩ | ⟨-, row₀, hrow₀, hoff⟩
    · exact absurd hlease ((hkeep _ hlock).1 rfl)
    · rw [hrow] at hrow₀
      obtain rfl := Option.some.inj hrow₀
      rw [not_claimable hoff hnow] at hclaim
      cases hclaim
  · obtain ⟨⟨r, rfl, rfl⟩, -⟩ := releases_origin hs hth hv hrel
    obtain ⟨row, hrow⟩ := Option.isSome_iff_exists.mp (row_of_run hs (Sys.run?_eq hth))
    refine .inr ⟨hlease'.trans hnone, _, hrow' row hrow, ?_⟩
    refine rowAfter_of_mem (fun v hv row => ?_) ⟨v, hv⟩ row
    have hrel := releases_all hs hth hv
    refine isOff_apply hs hth hv ?_ (hkeep v hv).2.2 (.inl hrel)
    cases v <;> first | rfl | cases hrel

theorem le_clock_of_starts (hs' : Reachable d ok s') {l : Label Val}
    (hstep : Step d s l s') (howns : s.ownsStep w i l = true) (h : s.HoldsOff w i t retryAt)
    {u : Nat} (hstart : s.Starts s' u w i f) : retryAt ≤ s.clock := by
  obtain ⟨hcaller, r, hr, hw, hi, hmay⟩ := starts_cases hs' hstep hstart
  have hu := Sys.lease_of_ownsStep howns hcaller hr hw hi
  rcases h with hclock | ⟨hlease, r', hr', hpast⟩ | ⟨hnone, -⟩
  · exact hclock
  · obtain rfl : t = u := Option.some.inj (hlease.symm.trans hu)
    rw [hr] at hr'
    exact absurd (Option.some.inj hr' ▸ hmay) hpast
  · rw [hnone] at hu
    cases hu

/-- **No attempt before its time.**  Between `s₀` and `s₁` the run of thread `t` has computed the
time of the next attempt.  It is the backoff after the clock, and the next attempt does not start
before it, whoever runs it, while the runs of `w` work on the step under their lease and no step cuts
the backoff short. -/
theorem backoff_respected (hs : Reachable d (fun _ _ => True) s₀) {l₀ : Label Val}
    (howns : s₀.ownsStep w i l₀ = true) (hstep₀ : s₀.step d l₀ = some s₁)
    (hbefore : s₀.putsOff t ≠ some (w, i, f, retryAt))
    (hafter : s₁.putsOff t = some (w, i, f, retryAt)) :
    (∃ backoff, timedelta f.backoffSeconds = .ok backoff ∧ retryAt = s₁.clock + backoff)
      ∧ ∀ s, Reach (Sys.step d) (fun s l => s.ownsStep w i l && s.keepsBackoff w t retryAt l) s₁ s →
        ∀ l s' u g, (s.ownsStep w i l && s.keepsBackoff w t retryAt l) = true →
          s.step d l = some s' → s.Starts s' u w i g → retryAt ≤ s.clock := by
  have hs₁ := hs.step l₀ trivial hstep₀
  have hstep := Step.of_step hstep₀
  obtain ⟨rfl, htime, r, hr, hi⟩ := putsOff_time hs hstep hbefore hafter
  obtain ⟨r₁, hr₁, hw, hpast⟩ := past_of_putsOff hs₁ hafter
  refine ⟨htime, fun s hreach l s' u g hl hstep' hstart => ?_⟩
  have hlease : s₁.lease w = some t := by
    obtain ⟨r', hr', hw'⟩ := run?_step hstep hr
    rw [hr₁] at hr'
    obtain rfl := Option.some.inj hr'
    have hlease := Sys.lease_of_ownsStep howns rfl hr (hw'.symm.trans hw) hi
    rcases hstep.tables_cases with htab | ⟨_, _, _, _, _, hcommit, -⟩
    · rw [htab.lease, hlease]
    · cases hcommit
  have hs : ∀ {s}, Reach (Sys.step d) (fun s l => s.ownsStep w i l && s.keepsBackoff w t retryAt l)
      s₁ s → Reachable d (fun _ _ => True) s := fun h => hs₁.trans (h.mono fun _ _ _ => trivial)
  have hoff : s.HoldsOff w i t retryAt := by
    refine Reach.invariant_of_reach (I := fun s => s.HoldsOff w i t retryAt)
      (.inr (.inl ⟨hlease, r₁, hr₁, hpast⟩)) ?_ hreach
    intro s l s' hreach hoff hl hstep
    exact holdsOff_step (hs hreach) (Step.of_step hstep) (Bool.and_eq_true_iff.mp hl).2 hoff
  exact le_clock_of_starts ((hs hreach).step l trivial hstep') (Step.of_step hstep')
    (Bool.and_eq_true_iff.mp hl).1 hoff hstart

end

/-! ## a signal during the backoff -/

def putsOffOnce : List (Label Json) := transact 1 1 ++ [.advance 1]

def Sys.computes (d : Deployment Json) (retryAt : Int) (s : Sys Json) : Bool :=
  (s.putsOff 1).isNone && (s.step d (.read 1)).any fun s' =>
    (s'.putsOff 1).any fun b => b.1 == "w" && b.2.1 == 0 && b.2.2.2 == retryAt

theorem Sys.computes_spec {d : Deployment Json} {retryAt : Int} {s : Sys Json}
    (h : s.computes d retryAt = true) : ∃ s' f, s.step d (.read 1) = some s'
      ∧ s.putsOff 1 ≠ some ("w", 0, f, retryAt) ∧ s'.putsOff 1 = some ("w", 0, f, retryAt) := by
  unfold Sys.computes at h
  simp only [Bool.and_eq_true, Option.isNone_iff_eq_none, Option.any_eq_true, beq_iff_eq] at h
  obtain ⟨hnone, s', hs', ⟨w, i, f, time⟩, hat, ⟨rfl, rfl⟩, rfl⟩ := h
  exact ⟨s', f, hs', by simp [hnone], hat⟩

/-- after the backoff B makes the second attempt -/
theorem backoff_respected_once : ∃ (s₁ s s' : Sys Json) (f g : ActivityFunction Json),
    s₁.putsOff 1 = some ("w", 0, f, 60000000) ∧ s.Starts s' 2 "w" 0 g ∧ 60000000 ≤ s.clock := by
  let ok (s : Sys Json) (l : Label Json) : Bool :=
    s.ownsStep "w" 0 l && s.keepsBackoff "w" 1 60000000 l
  have hrun : (follow (Sys.step (tries 1)) (fun _ _ => true) Sys.initial failsOnce).any (fun s₀ =>
      s₀.ownsStep "w" 0 (.read 1) && s₀.computes (tries 1) 60000000
        && (s₀.step (tries 1) (.read 1)).any fun s₁ => (follow (Sys.step (tries 1)) ok s₁
          (putsOffOnce ++ [.tick 60000000] ++ claimsAgain 2 (newRow "w" "n" none 60000000))).any
            fun s => ok s (.read 2) && s.startsBody (tries 1) 1 2) = true := by
    decide +kernel
  obtain ⟨s₀, hs₀, h⟩ := Reach.exists_of_follow _ hrun
  simp only [Bool.and_eq_true] at h
  obtain ⟨⟨howns, hcomputes⟩, h⟩ := h
  obtain ⟨s₁, f, hstep₀, hbefore, hafter⟩ := Sys.computes_spec hcomputes
  rw [hstep₀, Option.any_some] at h
  obtain ⟨s, hs, h⟩ := Reach.exists_of_follow _ h
  obtain ⟨hl, hstarts⟩ := Bool.and_eq_true_iff.mp h
  obtain ⟨s', g, hstep, hstart, -⟩ := Sys.startsBody_spec hstarts
  obtain ⟨-, hclock⟩ := backoff_respected (hs₀.mono fun _ _ _ => trivial) howns hstep₀ hbefore hafter
  exact ⟨s₁, s, s', f, g, hafter, hstart, hclock s hs _ s' 2 g hl hstep hstart⟩

/-- a signal wakes the workflow during the backoff of a minute, and B makes the second attempt at
once -/
theorem backoff_cut_short : ∃ (s₀ s₁ s s' : Sys Json) (f g : ActivityFunction Json),
    Reachable (tries 1) (fun _ _ => true) s₀ ∧ s₀.step (tries 1) (.read 1) = some s₁
      ∧ s₀.putsOff 1 ≠ some ("w", 0, f, 60000000) ∧ s₁.putsOff 1 = some ("w", 0, f, 60000000)
      ∧ Reach (Sys.step (tries 1)) (fun s l => s.ownsStep "w" 0 l) s₁ s
      ∧ s.step (tries 1) (.read 3) = some s' ∧ s.Starts s' 3 "w" 0 g ∧ s.clock < 60000000 := by
  have hrun : (follow (Sys.step (tries 1)) (fun _ _ => true) Sys.initial failsOnce).any (fun s₀ =>
      s₀.computes (tries 1) 60000000 && (s₀.step (tries 1) (.read 1)).any fun s₁ =>
        (follow (Sys.step (tries 1)) (fun s l => s.ownsStep "w" 0 l) s₁
          (putsOffOnce ++ [.request (.sendSignal "w" "T" .null), .read 2] ++ transact 2 4
            ++ claimsAgain 3 (newRow "w" "n" none 0))).any
              fun s => s.startsBody (tries 1) 1 3 && decide (s.clock < 60000000)) = true := by
    decide +kernel
  obtain ⟨s₀, hs₀, h⟩ := Reach.exists_of_follow _ hrun
  obtain ⟨hcomputes, h⟩ := Bool.and_eq_true_iff.mp h
  obtain ⟨s₁, f, hstep₀, hbefore, hafter⟩ := Sys.computes_spec hcomputes
  rw [hstep₀, Option.any_some] at h
  obtain ⟨s, hs, h⟩ := Reach.exists_of_follow _ h
  obtain ⟨hstarts, hclock⟩ := Bool.and_eq_true_iff.mp h
  obtain ⟨s', g, hstep, hstart, -⟩ := Sys.startsBody_spec hstarts
  exact ⟨s₀, s₁, s, s', f, g, hs₀, hstep₀, hbefore, hafter, hs, hstep, hstart,
    of_decide_eq_true hclock⟩

end TemporalLight
