import TemporalLight.Sleeps

/-!
# No sleep is cut short or lost

What the code of a sleep does (`wp_sleep`), in the whole system: the steps in the log are the run's
own while it holds the lease, and it holds the lease until its last call.

* `sleepView_le`       the steps of the other threads keep to the rules of the run
* `sleepView_answers`  so do the replies to its own calls
* `sleep_count_le`     a step has at most one SLEEP event
* `sleep_kept`         no sleep is cut short or lost, while no function goes on after a suspension
-/

namespace TemporalLight
open Runs Resumption

section
variable {Val : Type} {d : Deployment Val} {s s' : Sys Val} {ok : Sys Val → Label Val → Prop}

/-! ## what a run that sleeps sees of the system -/

variable (d) in
/-- thread `t` has put the row `w` off until `time` and has made no call since -/
def PutOff (past : List (Sys Val × Label Val)) (t : Nat) (w : String) (time : Int) : Prop :=
  ∃ later earlier s₁ s₂ row, past = later ++ (s₁, .commit t) :: earlier
    ∧ s₁.step d (.commit t) = some s₂ ∧ s₂.row? w = some row
    ∧ row.status = .running ∧ row.lockedBy = none ∧ row.runAt = time
    ∧ ∀ p ∈ later, p.2.caller? ≠ some t

theorem PutOff.step {past : List (Sys Val × Label Val)} {t : Nat} {w : String} {time : Int}
    (h : PutOff d past t w time) {l : Label Val} (hl : l.caller? ≠ some t) :
    PutOff d ((s, l) :: past) t w time := by
  obtain ⟨later, earlier, s₁, s₂, row, rfl, hstep, hrow, hstatus, hby, hat, hlater⟩ := h
  refine ⟨(s, l) :: later, earlier, s₁, s₂, row, rfl, hstep, hrow, hstatus, hby, hat, ?_⟩
  exact List.forall_mem_cons.mpr ⟨hl, hlater⟩

variable (d) in
def sleepView (past : List (Sys Val × Label Val)) (s : Sys Val) (t : Nat) (w : String) :
    SleepView where
  clock := s.clock
  held := s.lease w = some t
  steps := stepEntries (s.history w)
  putOff := PutOff d past t w

theorem mem_stepEntries_step {l : Label Val} (hstep : Step d s l s') {w : String} :
    ∀ e ∈ stepEntries (s.history w), e ∈ stepEntries (s'.history w) := by
  intro e he
  obtain ⟨he, hisStep⟩ := List.mem_filter.mp he
  obtain ⟨e₀, he₀, rfl⟩ := List.mem_map.mp he
  exact List.mem_filter.mpr ⟨List.mem_map_of_mem (hstep.mem_history he₀), hisStep⟩

theorem lease_ne_of_run (hs : Reachable d ok s) {l : Label Val} (hstep : Step d s l s') {t : Nat}
    {r : Run Val} (hr : s.run? t = some r) {w : String} (h : s.lease w ≠ some t) :
    s'.lease w ≠ some t := by
  intro h'
  rcases lease_cases hs hstep w with hsame | ⟨u, task, x, worker, row, -, hth, rfl, -, -, -, hu⟩
      | ⟨_, _, _, _, _, _, _, _, _, hnone⟩
  · exact h (hsame ▸ h')
  · obtain rfl := Option.some.inj (hu.symm.trans h')
    obtain ⟨tx, alive, hth'⟩ := Sys.thread_of_run? hr
    rw [hth'] at hth
    cases (Thread.mk.inj (Option.some.inj hth)).1
  · rw [hnone] at h'
    cases h'

theorem slept_step (hs : Reachable d ok s) {l : Label Val} (hstep : Step d s l s') {t : Nat}
    {r : Run Val} (hr : s.run? t = some r) {past : List (Sys Val × Label Val)} {w : String} {i : Nat}
    {snapshot : List EventRecord} {action : Action Val} {o : Outcome Val}
    (hl : suspends o = true → l.caller? ≠ some t)
    (h : Slept d.toRuntime snapshot action i o (sleepView d past s t w)) :
    Slept d.toRuntime snapshot action i o (sleepView d ((s, l) :: past) s' t w) := by
  rcases h with ⟨hnone, hrange⟩ | ⟨e, he, hat, ⟨ho, hclock⟩ | ⟨ho, hnot, hput⟩⟩
  · exact .inl ⟨hnone, hrange.le hstep.clock_le⟩
  · exact .inr ⟨e, mem_stepEntries_step hstep e he, hat,
      .inl ⟨ho, hclock.trans hstep.clock_le⟩⟩
  · exact .inr ⟨e, mem_stepEntries_step hstep e he, hat,
      .inr ⟨ho, lease_ne_of_run hs hstep hr hnot, hput.step (hl ho)⟩⟩

/-! ## functions that pass suspensions on -/

def Action.isSuspension : Action Val → Bool
  | .raise error => error.isSuspension
  | _ => false

/-- once an await of the run has raised `WorkflowSuspended`, the function raises it again -/
def Run.passesSuspensions (r : Run Val) : Bool :=
  match r.code with
  | .stepping c => c.run.value?.all fun outcome =>
    let delivered := r.delivered ++ [outcome]
    !delivered.any suspends || (r.program delivered).isSuspension
  | _ => true

def Sys.passesSuspensions (s : Sys Val) : Label Val → Bool
  | .advance t => (s.run? t).all Run.passesSuspensions
  | _ => true

theorem Action.isAnswered_of_isSuspension {rt : Runtime Val} {ctx : WorkflowContext} {clock : Int}
    {action : Action Val} (h : action.isSuspension = true) :
    action.isAnswered rt ctx clock = true := by
  cases action with
  | raise error => exact h
  | _ => cases h

theorem Run.staysSuspended_of_passes {r : Run Val} (h : r.passesSuspensions = true)
    (rt : Runtime Val) (clock : Int) : r.staysSuspended rt clock = true := by
  unfold Run.passesSuspensions at h
  unfold Run.staysSuspended
  cases hc : r.code with
  | stepping c =>
    rw [hc] at h
    dsimp only at h ⊢
    cases hval : c.run.value? with
    | none => rfl
    | some outcome =>
      rw [hval, Option.all_some, Bool.or_eq_true] at h
      rw [Option.all_some, Bool.or_eq_true]
      exact h.imp_right Action.isAnswered_of_isSuspension
  | _ => rfl

def Run.outcomes (r : Run Val) : List (Outcome Val) :=
  r.delivered ++ match r.code with
    | .stepping c => c.run.value?.toList
    | _ => []

theorem Run.hasSuspended_eq (r : Run Val) : r.hasSuspended = r.outcomes.any suspends := by
  unfold Run.hasSuspended Run.outcomes
  rw [List.any_append]
  cases r.code with
  | stepping c =>
    dsimp only
    cases c.run.value? with
    | none => rfl
    | some o => simp
  | _ => rfl

theorem Run.outcomes_of_value {r : Run Val} {c : Engine Val Val} {o : Outcome Val}
    (hcode : r.code = .stepping c) (hval : c.run = .pure o) : r.outcomes = r.delivered ++ [o] := by
  rw [Run.outcomes, hcode]
  dsimp only
  rw [hval]
  rfl

theorem Run.outcomes_cases (r : Run Val) : r.outcomes = r.delivered
    ∨ ∃ c o, r.code = .stepping c ∧ c.run = .pure o ∧ r.outcomes = r.delivered ++ [o] := by
  cases hc : r.code with
  | stepping c =>
    cases hval : c.run with
    | pure o => exact .inr ⟨c, o, rfl, hval, Run.outcomes_of_value hc hval⟩
    | call q k =>
      refine .inl ?_
      rw [Run.outcomes, hc]
      dsimp only
      rw [hval]
      exact List.append_nil _
  | _ =>
    refine .inl ?_
    rw [Run.outcomes, hc]
    exact List.append_nil _

/-- the run makes no further call, its last outcome is the suspension, and the function passes it on -/
structure Run.EndsSuspended (r : Run Val) : Prop where
  next : r.next? = none
  last : ∃ before o, r.outcomes = before ++ [o] ∧ before.any suspends = false ∧ suspends o = true
  passes : r.delivered.any suspends = true → (r.program r.delivered).isSuspension = true

theorem Run.endsSuspended_of_value {r : Run Val} {c : Engine Val Val} {o : Outcome Val}
    (hcode : r.code = .stepping c) (hval : c.run = .pure o)
    (hdel : r.delivered.any suspends = false) (ho : suspends o = true) : r.EndsSuspended where
  next := by
    rw [Run.next?, hcode]
    dsimp only
    rw [hval]
    rfl
  last := ⟨r.delivered, o, Run.outcomes_of_value hcode hval, hdel, ho⟩
  passes h := by
    rw [hdel] at h
    cases h

theorem Run.EndsSuspended.length_eq {r : Run Val} (h : r.EndsSuspended) {i : Nat} {o : Outcome Val}
    (ho : r.delivered[i]? = some o) (hsusp : suspends o = true) : r.delivered.length = i + 1 := by
  obtain ⟨before, o', hlast, hbefore, -⟩ := h.last
  have hlt := (List.getElem?_eq_some_iff.mp ho).1
  have hle : r.delivered.length ≤ before.length + 1 := by
    have hlength := congrArg List.length hlast
    rw [Run.outcomes, List.length_append, List.length_append, List.length_singleton] at hlength
    omega
  have hnot : ¬ i < before.length := by
    intro hi
    rw [Run.outcomes] at hlast
    have hget : (before ++ [o'])[i]? = some o := by
      rw [← hlast, List.getElem?_append_left hlt, ho]
    rw [List.getElem?_append_left hi] at hget
    rw [List.any_eq_true.mpr ⟨o, List.mem_of_getElem? hget, hsusp⟩] at hbefore
    cases hbefore
  omega

theorem endsSuspended_resume {rt : Runtime Val} {r : Run Val}
    (h : r.delivered.any suspends = true → (r.program r.delivered).isSuspension = true
      ∧ ∃ before o, r.delivered = before ++ [o] ∧ before.any suspends = false ∧ suspends o = true)
    (hsusp : (r.resume rt).hasSuspended = true) : (r.resume rt).EndsSuspended := by
  unfold Run.resume at hsusp ⊢
  dsimp only at hsusp ⊢
  cases hdel : r.delivered.any suspends with
  | true =>
    obtain ⟨haction, hlast⟩ := h hdel
    cases hact : r.program r.delivered with
    | raise error =>
      rw [hact] at haction
      cases error with
      | workflowSuspended message =>
        refine ⟨rfl, ?_, fun _ => ?_⟩
        · show ∃ before o, r.delivered ++ [] = before ++ [o] ∧ _
          rw [List.append_nil]
          exact hlast
        · show (r.program r.delivered).isSuspension = true
          rw [hact]
          rfl
      | _ => cases haction
    | _ =>
      rw [hact] at haction
      cases haction
  | false =>
    by_cases hend : (r.program r.delivered).isEnd = true
    · rw [if_pos hend, Run.hasSuspended] at hsusp
      dsimp only at hsusp
      rw [hdel] at hsusp
      cases hsusp
    · rw [if_neg hend] at hsusp ⊢
      rw [Run.hasSuspended] at hsusp
      dsimp only at hsusp
      rw [hdel, Bool.false_or] at hsusp
      obtain ⟨o, hval, ho⟩ := (Option.any_eq_true _ _).mp hsusp
      exact Run.endsSuspended_of_value rfl (Resumption.value?_eq_some hval) hdel ho

/-! ## the calls of a run -/

/-- a run that makes a call has one to make -/
theorem next_of_caller (hs : Reachable d ok s) {l : Label Val} (hstep : Step d s l s') {t : Nat}
    {r : Run Val} (hr : s.run? t = some r) (hl : l.caller? = some t) : ∃ n, r.next? = some n := by
  obtain ⟨tx, alive, hth⟩ := Sys.thread_of_run? hr
  have hnext {task : Task Val} {tx' : Option Tx} {n : (q : Call Val) × (q.Reply → Task Val)}
      (hth' : s.threads[t]? = some ⟨task, tx', true⟩) (hn : task.next? d t = some n) :
      ∃ n, r.next? = some n := by
    rw [hth] at hth'
    obtain ⟨rfl, -⟩ := Thread.mk.inj (Option.some.inj hth')
    obtain ⟨m, hm, -⟩ := Option.map_eq_some_iff.mp hn
    exact ⟨m, hm⟩
  cases hstep with
  | begin hth' hq =>
    obtain rfl := Option.some.inj hl
    exact hnext hth' hq
  | execute hth' hrest hx =>
    obtain rfl := Option.some.inj hl
    obtain ⟨-, k, hk⟩ := txn_of_thread hs hth' rfl
    exact hnext hth' hk
  | commit hth' hrest hq =>
    obtain rfl := Option.some.inj hl
    exact hnext hth' hq
  | read hth' hq hreply =>
    obtain rfl := Option.some.inj hl
    exact hnext hth' hq
  | body result hth' hq =>
    obtain rfl := Option.some.inj hl
    exact hnext hth' hq
  | _ => cases hl

/-- the transactions of a sleep go through -/
theorem result_of_succeeds (hs : Reachable d ok s) {t : Nat} {x : Tx} (hx : s.tx? t = some x)
    (h : x.txn.Succeeds d) : x.result = .ok true := by
  refine result_ok hs (P := Txn.Succeeds d) ?_ hx h
  intro s t x stmt hs hx h hmem
  obtain ⟨task, alive, hth⟩ := Sys.tx?_eq_some hx
  have hissues := issues_of_thread hs hth rfl
  cases htxn : x.txn with
  | updateWorkflowRunAt w' time =>
    rw [htxn] at hmem
    obtain rfl := List.mem_singleton.mp hmem
    exact ⟨Sys.effect_update_ne, rfl⟩
  | insertEvent w' j n ty payload =>
    rw [htxn] at h hmem hissues
    cases payload with
    | error error => cases h
    | ok payload =>
      -- the run that writes the event has a row
      have hrow : (s.row? w').isSome = true := by
        rcases hissues.cases with ⟨_, _, -, h⟩ | ⟨r, rfl, hrun⟩ | ⟨_, _, _, _, -, h⟩
            | ⟨_, _, _, _, -, h⟩ | ⟨_, _, -, h⟩
        · cases h
        · obtain rfl : w' = r.workflowId := hrun.1
          exact row_of_run hs (Sys.run?_eq hth)
        · cases h
        · cases h
        · cases h
      rcases List.mem_cons.mp hmem with rfl | hmem
      · refine ⟨fun error => ?_, rfl⟩
        simp only [Sys.effect]
        rw [show d.jsonbRejects payload = none from h]
        intro heffect
        cases heffect
      · obtain rfl := List.mem_singleton.mp hmem
        refine ⟨fun error => ?_, rfl⟩
        simp only [Sys.effect]
        rw [if_neg (by
          rw [Option.isNone_eq_false_iff.mpr hrow, Bool.false_and]
          exact Bool.false_ne_true)]
        split <;> (intro heffect; cases heffect)
  | _ =>
    rw [htxn] at h
    cases h

/-- the row and the lease after the row has been put off -/
theorem putOff_of_commit (hs : Reachable d ok s) {t : Nat} {x : Tx} (hx : s.tx? t = some x)
    (hrest : x.rest = []) (hres : x.result = .ok true) {w : String} {time : Int}
    (htxn : x.txn = .updateWorkflowRunAt w time) (hlease : s.lease w = some t)
    (hrow : (s.row? w).isSome = true) (hstep : s.step d (.commit t) = some s')
    {th : Thread Val} (hs' : s' = (s.publish t x).setThread t th)
    (past : List (Sys Val × Label Val)) :
    s'.lease w ≠ some t ∧ PutOff d ((s, .commit t) :: past) t w time := by
  obtain ⟨row, hrow⟩ := Option.isSome_iff_exists.mp hrow
  have hupdates : x.updates = [(w, .runAt time)] := by
    have hchanges := (tx_ok hs hx).changes hres
    rw [(tx_ok hs hx).executed_of_rest hrest hres, htxn] at hchanges
    obtain ⟨⟨w', u⟩, hu, heq⟩ := List.map_eq_singleton_iff.mp hchanges
    obtain ⟨rfl, hchange⟩ := Prod.mk.inj heq
    cases u <;> cases hchange
    exact hu
  have hrow' : s'.row? w = some ((RowUpdate.runAt time).apply row) := by
    rw [hs', Sys.setThread_row?, Sys.row?_publish, hrow, hupdates]
    simp [rowAfter]
  refine ⟨?_, [], past, s, s', _, rfl, hstep, hrow', ?_, rfl, rfl, fun _ h => by cases h⟩
  · have hnone : leaseAfter t s.lease x.updates w = none := by
      rw [hupdates]
      exact if_pos rfl
    rw [hs']
    show leaseAfter t s.lease x.updates w ≠ some t
    rw [hnone]
    exact (Option.some_ne_none t).symm
  · show row.status = .running
    exact running_of_lease hs hlease hrow

/-! ## the rules of the run -/

section
variable {w : String}
  (hkeeps : ∀ s l s', Reachable d ok s → ok s l → Step d s l s' → s.keepsLease w l)
  (hpass : ∀ s l, ok s l → s.passesSuspensions l = true)
include hkeeps hpass

omit hkeeps in
theorem stays_of_passes (s : Sys Val) (t : Nat) (r : Run Val) (hl : ok s (.advance t))
    (hr : s.run? t = some r) (_ : r.workflowId = w) :
    r.staysSuspended d.toRuntime s.clock = true := by
  have h := hpass s _ hl
  rw [Sys.passesSuspensions, hr, Option.all_some] at h
  exact Run.staysSuspended_of_passes h _ _

omit hkeeps in
/-- **A suspended run makes no further call.** -/
theorem endsSuspended_ok (hs : Reachable d ok s) {t : Nat} {r : Run Val} (hr : s.run? t = some r)
    (hsusp : r.hasSuspended = true) : r.EndsSuspended := by
  obtain ⟨past, htrace⟩ := hs.exists_trace
  revert hsusp
  refine run_invariant (I := fun _ _ _ r => r.hasSuspended = true → r.EndsSuspended)
    ?_ ?_ ?_ ?_ ?_ htrace hr
  · intro t r hr
    rw [Sys.initial_run?] at hr
    cases hr
  · intro _ _ _ _ _ worker row _ _ _ _ _ _ _ hsusp
    cases hsusp
  · exact fun _ _ _ _ _ _ _ _ _ _ _ h => h
  · intro _ _ _ _ _ r _ n reply _ _ _ _ hn _ h hsusp
    have hr : r.hasSuspended = false := by
      rw [← Bool.not_eq_true]
      intro hr
      rw [(h hr).next] at hn
      cases hn
    obtain ⟨code, hcode⟩ := Run.next?_code hn reply
    rw [hcode] at hsusp ⊢
    rw [Run.hasSuspended, Bool.or_eq_false_iff] at hr
    rw [Run.hasSuspended] at hsusp
    dsimp only at hsusp
    rw [hr.1, Bool.false_or] at hsusp
    cases code with
    | stepping c =>
      obtain ⟨o, hval, ho⟩ := (Option.any_eq_true _ _).mp hsusp
      exact Run.endsSuspended_of_value rfl (Resumption.value?_eq_some hval) hr.1 ho
    | _ => cases hsusp
  · intro _ s _ t r r' _ hl _ hth hadv h hsusp
    rcases Run.advance_cases hadv with ⟨_, _, _, -, -, rfl⟩ | ⟨c, outcome, hc, hval, rfl⟩
        | ⟨rfl, hend⟩
    · exact endsSuspended_resume (fun hdel => by cases hdel) hsusp
    · refine endsSuspended_resume (fun hdel => ?_) hsusp
      have hout := Run.outcomes_of_value hc hval
      have hends := h (by rw [Run.hasSuspended_eq, hout]; exact hdel)
      refine ⟨?_, hout ▸ hends.last⟩
      have hpasses := hpass s _ hl
      rw [Sys.passesSuspensions, Sys.run?_eq hth, Option.all_some, Run.passesSuspensions, hc] at hpasses
      dsimp only at hpasses hdel
      rw [hval, Resumption.value?, Option.all_some, hdel] at hpasses
      exact hpasses
    · -- nothing of a run that ends is left to deliver
      have hout : r.outcomes = r.delivered ++ [] := by
        rcases hend with ⟨c, _, hc, -, -⟩ | ⟨c, _, hc, -⟩ <;> rw [Run.outcomes, hc]
      rw [Run.hasSuspended_eq] at hsusp
      have hends := h (by rw [Run.hasSuspended_eq, hout]; exact hsusp)
      refine ⟨rfl, ?_, hends.passes⟩
      show ∃ before o, r.delivered ++ [] = before ++ [o] ∧ _
      rw [← hout]
      exact hends.last

theorem sleepView_le (hs : Reachable d ok s) {l : Label Val} (hl : ok s l) (hstep : Step d s l s')
    {t : Nat} {r : Run Val} {tx : Option Tx} (hth : s.threads[t]? = some ⟨.run r, tx, true⟩)
    (hw : r.workflowId = w) (hover : r.isOver = false) (hne : l ≠ .commit t)
    (past : List (Sys Val × Label Val)) :
    (sleepView d past s t w).Le (sleepView d ((s, l) :: past) s' t w) := by
  obtain ⟨hlease, hlease', hsteps⟩ :=
    living_step hkeeps (stays_of_passes hpass) hs hl hstep hth hw hover hne
  exact ⟨hstep.clock_le, fun _ => hlease', fun _ => hsteps, mem_stepEntries_step hstep,
    fun hnot => absurd hlease hnot, fun hnot => absurd hlease hnot⟩

/-- so do the replies to its own calls -/
theorem sleepView_answers (hs : Reachable d ok s) {l : Label Val} (hl : ok s l)
    (hls : s.step d l = some s') {t : Nat} {r : Run Val} {tx : Option Tx} {q : Call Val}
    {reply : q.Reply} {k : q.Reply → Run Val} (hth : s.threads[t]? = some ⟨.run r, tx, true⟩)
    (hw : r.workflowId = w) (hover : r.isOver = false) (hn : r.next? = some ⟨q, k⟩)
    (hans : Answers s t l q reply s') (past : List (Sys Val × Label Val)) :
    (sleepView d past s t w).Answers d w (sleepView d ((s, l) :: past) s' t w) q reply := by
  have hstep := Step.of_step hls
  have hle := sleepView_le hkeeps hpass hs hl hstep hth hw hover
  cases hans with
  | @commit task x txn k' hth' hrest =>
    rw [hth] at hth'
    obtain ⟨rfl, rfl, -⟩ := Thread.mk.inj (Option.some.inj hth')
    obtain ⟨-, k₁, hk₁⟩ := txn_of_thread hs hth rfl
    obtain ⟨n, hn', hk₁⟩ := Option.map_eq_some_iff.mp hk₁
    obtain rfl := Option.some.inj (hn.symm.trans hn')
    obtain rfl : txn = x.txn := Call.transaction.inj (congrArg Sigma.fst hk₁)
    have hx := Sys.tx?_eq hth
    obtain ⟨hlease, hkeep, hsteps, -⟩ :=
      living_commit hkeeps (stays_of_passes hpass) hs hl hstep hth hw hover
    refine ⟨result_of_succeeds hs hx, fun hres _ => ⟨hstep.clock_le, hsteps hres,
      fun hrel => hkeep fun _ => hrel, fun time htxn => ?_⟩⟩
    exact putOff_of_commit hs hx hrest hres htxn hlease (hw ▸ row_of_run hs (Sys.run?_eq hth)) hls
      rfl past
  | @read q reply th hreply =>
    have hle := hle nofun past
    cases q with
    | loadEventHistory w' =>
      obtain rfl : s.history w' = reply := Option.some.inj hreply
      refine ⟨hle, ?_⟩
      rintro rfl -
      show _ = stepEntries (Sys.history _ _)
      rw [Sys.setThread_history, Sys.noteLoad_history]
    | now =>
      obtain rfl : s.clock = reply := Option.some.inj hreply
      exact ⟨hle, hle.clock⟩
    | transaction txn => cases hreply
    | _ => exact hle
  | body result => exact hle nofun past

/-! ## runs that sleep -/

def Action.isSleep : Action Val → Bool
  | .sleep _ _ _ _ => true
  | _ => false

variable (d) in
/-- what is left of the run keeps to the rules, and the SLEEP events of the steps to come are those
of its snapshot -/
def Run.Sleeping (w : String) (r : Run Val) (v : SleepView) : Prop :=
  r.Meets (sleepRules d w)
    (fun result v' => ∀ p, result = .ok (some p) → v'.held → stepEntries p.2.eventHistory = v'.steps)
    (fun o v' => (r.program r.delivered).isSleep = true →
      Slept d.toRuntime r.context.eventHistory (r.program r.delivered) r.delivered.length o v')
    (fun _ => True) v
  ∧ ∀ k j, r.step? = some k → k < j → v.steps.filter (Entry.isAt j .sleep)
    = (stepEntries r.context.eventHistory).filter (Entry.isAt j .sleep)

variable (hjson : ∀ time, d.jsonbRejects (.obj [("wakeup_at", .str (d.isoformat time))]) = none)

omit hkeeps hpass in
include hjson in
theorem sleeping_resume {r : Run Val} {registry : String → Option (Json → Program Val)} {L : Loaded}
    (hcode : (r.resume d.toRuntime).CodeOk d.toRuntime registry L) (hw : r.workflowId = w)
    {v : SleepView} (hheld : v.held) (hsnap : ∀ j, r.delivered.length ≤ j →
      v.steps.filter (Entry.isAt j .sleep)
        = (stepEntries r.context.eventHistory).filter (Entry.isAt j .sleep)) :
    (r.resume d.toRuntime).Sleeping d w v := by
  have hctx := Run.workflowId_of_resume hcode
  unfold Run.resume at hcode ⊢
  dsimp only at hcode ⊢
  split
  · exact ⟨wp_of_writes (writes_finishRun _) (by simp), fun k j hk => by cases hk⟩
  · rename_i hend
    rw [if_neg hend] at hcode
    have hcount : r.context.stepCounter + 1 = r.delivered.length + 1 := hcode.2.1
    refine ⟨?_, fun k j hk hj => ?_⟩
    · show wp _ (executeStep d.toRuntime r.context (r.program r.delivered)).run _ v
      cases haction : r.program r.delivered with
      | sleep seconds minutes hours days =>
        refine wp_mono (fun o v' h _ => h) ?_
        exact wp_sleep hjson hheld (hctx.trans hw) (Nat.succ.inj hcount) (hsnap _ le_rfl)
          seconds minutes hours days
      | _ =>
        refine wp_mono (fun o v' _ hsleep => ?_)
          (wp_of_writes (writes_executeStep _) (by simp [Action.writes]))
        cases hsleep
    · obtain rfl := Option.some.inj hk
      exact hsnap j hj.le

/-- the steps that a run has not come to are left alone -/
theorem sleeps_frame (hs : Reachable d ok s) {l : Label Val} (hl : ok s l) (hstep : Step d s l s')
    {t : Nat} {r : Run Val} {tx : Option Tx} (hth : s.threads[t]? = some ⟨.run r, tx, true⟩)
    (hw : r.workflowId = w) (hover : r.isOver = false) {k j : Nat} (hk : r.step? = some k)
    (hj : k < j) : (stepEntries (s'.history w)).filter (Entry.isAt j .sleep)
      = (stepEntries (s.history w)).filter (Entry.isAt j .sleep) := by
  by_cases hcommit : l = .commit t
  · subst hcommit
    obtain ⟨x, rfl⟩ : ∃ x, tx = some x := by
      cases hstep with
      | @commit _ task x txn k hth' hrest hq =>
        rw [hth] at hth'
        exact ⟨x, (Thread.mk.inj (Option.some.inj hth')).2.1⟩
    obtain ⟨-, -, hyes, hno⟩ :=
      living_commit hkeeps (stays_of_passes hpass) hs hl hstep hth hw hover
    by_cases hres : x.result = .ok true
    · suffices hnone : (x.txn.stepEntries w).filter (Entry.isAt j .sleep) = [] by
        rw [hyes hres, List.filter_append, hnone, List.append_nil]
      refine List.filter_eq_nil_iff.mpr fun e he hat => ?_
      obtain ⟨he, hwhere⟩ := List.mem_filter.mp he
      rw [Bool.and_eq_true] at hwhere
      obtain ⟨n, hn, -⟩ := commit_run hs hth hstep
      have hin := ((inStep_ok hs (Sys.run?_eq hth)).next hn).1
      obtain ⟨-, -, -, ⟨payload, htxn⟩ | ⟨_, _, _, _, -, hty, -⟩⟩ :=
        (issues_of_thread hs hth rfl).step_of_entry he hwhere.2
      · obtain ⟨hj', hty⟩ := Entry.isAt_iff.mp hat
        rw [htxn, hty] at hin
        obtain ⟨k', hk', heq⟩ := hin nofun
        obtain rfl := Option.some.inj (hk.symm.trans hk')
        omega
      · rw [(Entry.isAt_iff.mp hat).2] at hty
        cases hty
    · rw [hno hres]
  · obtain ⟨-, -, hsteps⟩ := living_step hkeeps (stays_of_passes hpass) hs hl hstep hth hw hover hcommit
    rw [hsteps]

include hjson in
theorem sleeping_step (hs : Reachable d ok s) {l : Label Val} (hl : ok s l)
    (hls : s.step d l = some s') {t : Nat} {r r' : Run Val} {tx : Option Tx}
    (hth : s.threads[t]? = some ⟨.run r, tx, true⟩) (hw : r.workflowId = w)
    (hover : r.isOver = false) {past : List (Sys Val × Label Val)}
    (h : r.Sleeping d w (sleepView d past s t w)) (hr' : s'.run? t = some r') :
    r'.Sleeping d w (sleepView d ((s, l) :: past) s' t w) := by
  have hstep := Step.of_step hls
  have hr := Sys.run?_eq hth
  have hframe {k j : Nat} (hk : r.step? = some k) (hj : k < j) :=
    (sleeps_frame hkeeps hpass hs hl hstep hth hw hover hk hj).trans (h.2 k j hk hj)
  rcases run_step_cases hs hstep hr' with ⟨hsame, hne⟩ | ⟨_, _, _, _, hth', -, -⟩
      | ⟨r₀, tx₀, n, reply, hth', hn, rfl, hans⟩ | ⟨r₀, rfl, hth', hadv⟩
  · obtain rfl := Option.some.inj (hr.symm.trans hsame)
    exact ⟨h.1.rely (sleepView_le hkeeps hpass hs hl hstep hth hw hover hne past), fun k j => hframe⟩
  · rw [hth] at hth'
    cases (Thread.mk.inj (Option.some.inj hth')).1
  · obtain rfl := Option.some.inj (hr.symm.trans (Sys.run?_eq hth'))
    have hmeets := (h.1.next hn).2 reply _
      (sleepView_answers hkeeps hpass hs hl hls hth hw hover hn hans past)
    have hstep? := Run.next?_step hn reply
    obtain ⟨code, hcode⟩ := Run.next?_code hn reply
    rw [hcode] at hmeets hstep? ⊢
    exact ⟨hmeets, fun k j hk => hframe (hstep?.symm.trans hk)⟩
  · obtain rfl := Option.some.inj (hr.symm.trans (Sys.run?_eq hth'))
    have hle := sleepView_le hkeeps hpass hs hl hstep hth hw hover nofun past
    have hheld := (living_step hkeeps (stays_of_passes hpass) hs hl hstep hth hw hover nofun).2.1
    have hcode := ((task_ok hs hth').advance hadv).code
    rcases (h.1.rely hle).advance hadv with ⟨c, program, context, -, -, hstart, rfl⟩
        | ⟨c, outcome, hc, -, -, rfl⟩ | ⟨rfl, -⟩
    · refine sleeping_resume hjson hcode hw hheld fun j _ => ?_
      rw [hstart _ rfl hheld]
    · refine sleeping_resume hjson hcode hw hheld fun j hj => ?_
      refine hframe (k := r.delivered.length) (by rw [Run.step?, hc]) ?_
      exact Nat.lt_of_lt_of_le (by simp) hj
    · exact ⟨fun _ _ => trivial, fun k j hk => by cases hk⟩

include hjson in
/-- **What is left of a run that has calls left keeps to the rules.** -/
theorem sleeping_ok {past : List (Sys Val × Label Val)}
    (htrace : Trace (Sys.step d) ok Sys.initial past s) {t : Nat} {r : Run Val} {tx : Option Tx}
    (hth : s.threads[t]? = some ⟨.run r, tx, true⟩) (hw : r.workflowId = w)
    (hover : r.isOver = false) : r.Sleeping d w (sleepView d past s t w) := by
  induction htrace generalizing r tx with
  | start => cases hth
  | @step past s s' l hpast hl hls ih =>
    have hs := hpast.reach
    have hstep := Step.of_step hls
    have hr' := Sys.run?_eq hth
    have hold {r₀ : Run Val} {tx₀ : Option Tx} {alive : Bool}
        (hth₀ : s.threads[t]? = some ⟨.run r₀, tx₀, alive⟩) :
        r.Sleeping d w (sleepView d ((s, l) :: past) s' t w) := by
      obtain rfl : alive = true := hstep.alive hth₀ hth rfl
      have hr₀ := Sys.run?_eq hth₀
      obtain ⟨r₁, tx₁, alive₁, hth₁, hw₀, -⟩ :=
        Sys.Runs.step hstep ⟨r₀, tx₀, true, hth₀, rfl, rfl⟩
      obtain rfl := Option.some.inj (hr'.symm.trans (Sys.run?_eq hth₁))
      have hover₀ : r₀.isOver = false := by
        rw [← Bool.not_eq_true]
        intro hover₀
        rw [isOver_step hs hstep hr₀ hr' hover₀] at hover
        cases hover
      exact sleeping_step hkeeps hpass hjson hs hl hls hth₀ (hw₀.symm.trans hw) hover₀
        (ih hth₀ (hw₀.symm.trans hw) hover₀) hr'
    rcases run_cases hstep hr' with hsame | ⟨worker, row, tx, reply, hth₀, hans, rfl⟩
        | ⟨r₀, tx₀, n, reply, hth₀, -, -, -⟩ | ⟨r₀, -, hth₀, -⟩
    · obtain ⟨tx₀, alive, hth₀⟩ := Sys.thread_of_run? hsame
      exact hold hth₀
    · exact ⟨wp_startRun_steps _ hw, fun k j hk => by cases hk⟩
    · exact hold hth₀
    · exact hold hth₀

/-! ## one SLEEP event for each sleep -/

include hjson in
/-- **A step has at most one SLEEP event.** -/
theorem sleep_count_le {past : List (Sys Val × Label Val)}
    (htrace : Trace (Sys.step d) ok Sys.initial past s) (i : Nat) :
    (stepEntries (s.history w)).countP (Entry.isAt i .sleep) ≤ 1 := by
  induction htrace with
  | start => exact Nat.zero_le 1
  | @step past s s' l hpast hl hls ih =>
    have hs := hpast.reach
    rcases (Step.of_step hls).tables_cases with htab | ⟨u, task, x, txn, k, rfl, hth, hrest, -, rfl⟩
    · rw [htab.history]
      exact ih
    · have hx := Sys.tx?_eq hth
      rw [Sys.setThread_history]
      obtain ⟨hyes, hno⟩ := steps_commit hkeeps (stays_of_passes hpass) hs (w := w) hx hrest
      by_cases hres : x.result = .ok true
      · rw [hyes hres, List.countP_append]
        by_cases hzero : (x.txn.stepEntries w).countP (Entry.isAt i .sleep) = 0
        · rw [hzero]
          exact ih
        · -- who writes a SLEEP event has seen that there is none
          obtain ⟨e, he, hat⟩ := List.countP_pos_iff.mp (Nat.pos_of_ne_zero hzero)
          obtain ⟨hentry, hwhere⟩ := List.mem_filter.mp he
          rw [Bool.and_eq_true, beq_iff_eq] at hwhere
          obtain ⟨r, rfl, hw, ⟨payload, htxn⟩ | ⟨_, _, _, _, -, hty, -⟩⟩ :=
            (issues_of_thread hs hth rfl).step_of_entry hentry hwhere.2
          · rw [hwhere.1] at hw htxn
            obtain ⟨hi, hty⟩ := Entry.isAt_iff.mp hat
            rw [hi, hty] at htxn
            obtain ⟨k, hn, -⟩ := commit_run hs hth (Step.of_step hls)
            have hover : r.isOver = false := by
              rw [← Bool.not_eq_true]
              intro hover
              have hnow := now_of_isOver (stays_of_passes hpass) hs (Sys.run?_eq hth) hw hover hn
              cases hnow
            have hask := ((sleeping_ok hkeeps hpass hjson hpast hth hw hover).1.next hn).1
            rw [htxn] at hask
            have hnone : (stepEntries (s.history w)).countP (Entry.isAt i .sleep) = 0 :=
              List.countP_eq_zero.mpr fun e he hat => hask rfl e he (Entry.isAt_iff.mp hat)
            rw [hnone, Nat.zero_add]
            refine le_trans List.countP_le_length ?_
            rw [htxn]
            cases payload with
            | ok payload =>
              rw [Txn.stepEntries_insertEvent]
              exact List.length_filter_le _ _
            | error error => exact Nat.zero_le 1
          · rw [(Entry.isAt_iff.mp hat).2] at hty
            cases hty
      · rw [hno hres]
        exact ih

/-! ## what the sleeps of a run have come to -/

omit hkeeps in
/-- an outcome was there before, or it is the value of the step that the run is in -/
theorem outcome_cases (hs : Reachable d ok s) {l : Label Val} (hl : ok s l)
    (hls : s.step d l = some s') {t : Nat} {r' : Run Val} (hr' : s'.run? t = some r') {i : Nat}
    {o : Outcome Val} (ho : r'.outcomes[i]? = some o) :
    (∃ r, s.run? t = some r ∧ r.record = r'.record ∧ r.program = r'.program
      ∧ r.context.eventHistory = r'.context.eventHistory
      ∧ r.outcomes[i]? = some o ∧ r.outcomes.take i = r'.outcomes.take i)
    ∨ ∃ r tx c, s.threads[t]? = some ⟨.run r, tx, true⟩ ∧ r.record = r'.record
      ∧ r.isOver = false ∧ r'.code = .stepping c ∧ c.run = .pure o ∧ i = r'.delivered.length
      ∧ r'.outcomes.take i = r'.delivered := by
  -- the run has gone on from `r`, whose outcomes have been delivered
  have key {r : Run Val} {tx : Option Tx} (hth : s.threads[t]? = some ⟨.run r, tx, true⟩)
      (hrecord : r.record = r'.record) (hout : r.outcomes = r'.delivered)
      (hprogram : r'.delivered ≠ [] →
        r.program = r'.program ∧ r.context.eventHistory = r'.context.eventHistory)
      (hover : ∀ o, r'.outcomes = r'.delivered ++ [o] → r.isOver = false) :
      (∃ r, s.run? t = some r ∧ r.record = r'.record ∧ r.program = r'.program
        ∧ r.context.eventHistory = r'.context.eventHistory
        ∧ r.outcomes[i]? = some o ∧ r.outcomes.take i = r'.outcomes.take i)
      ∨ ∃ r tx c, s.threads[t]? = some ⟨.run r, tx, true⟩ ∧ r.record = r'.record
        ∧ r.isOver = false ∧ r'.code = .stepping c ∧ c.run = .pure o ∧ i = r'.delivered.length
        ∧ r'.outcomes.take i = r'.delivered := by
    have hold (hlt : i < r'.delivered.length) (ho : r'.delivered[i]? = some o) :
        (r.program = r'.program ∧ r.context.eventHistory = r'.context.eventHistory)
          ∧ r.outcomes[i]? = some o :=
      ⟨hprogram (List.length_pos_iff.mp (by omega)), hout ▸ ho⟩
    rcases r'.outcomes_cases with hdel | ⟨c, o', hcode, hval, hdel⟩
    · rw [hdel] at ho
      obtain ⟨⟨hprogram, hsnap⟩, ho'⟩ := hold (List.getElem?_eq_some_iff.mp ho).1 ho
      exact .inl ⟨r, Sys.run?_eq hth, hrecord, hprogram, hsnap, ho', by rw [hdel, hout]⟩
    · rw [hdel] at ho
      by_cases hlt : i < r'.delivered.length
      · rw [List.getElem?_append_left hlt] at ho
        obtain ⟨⟨hprogram, hsnap⟩, ho'⟩ := hold hlt ho
        refine .inl ⟨r, Sys.run?_eq hth, hrecord, hprogram, hsnap, ho', ?_⟩
        rw [hdel, hout, List.take_append_of_le_length hlt.le]
      · have hi : i = r'.delivered.length := by
          have hlt' := (List.getElem?_eq_some_iff.mp ho).1
          rw [List.length_append, List.length_singleton] at hlt'
          omega
        rw [hi, List.getElem?_concat_length] at ho
        obtain rfl := Option.some.inj ho
        refine .inr ⟨r, tx, c, hth, hrecord, hover _ hdel, hcode, hval, hi, ?_⟩
        rw [hdel, hi, List.take_left]
  have hstep := Step.of_step hls
  rcases run_cases hstep hr' with hsame | ⟨_, _, _, _, -, -, rfl⟩
      | ⟨r, tx, n, reply, hth, hn, rfl, -⟩ | ⟨r, -, hth, hadv⟩
  · exact .inl ⟨r', hsame, rfl, rfl, rfl, ho, rfl⟩
  · cases ho
  · have hr := Sys.run?_eq hth
    have hout : r.outcomes = r.delivered := by
      rcases r.outcomes_cases with hdel | ⟨c, o', hcode, hval, -⟩
      · exact hdel
      · rw [Run.next?, hcode] at hn
        dsimp only at hn
        rw [hval] at hn
        cases hn
    obtain ⟨code, hcode⟩ := Run.next?_code hn reply
    have hover : r.isOver = false := by
      rw [← Bool.not_eq_true]
      intro hover
      rw [(endsSuspended_ok hpass hs hr (Run.hasSuspended_of_next hover hn)).next] at hn
      cases hn
    exact key hth (Run.next?_record hn reply).1.symm (by rw [hout, hcode])
      (fun _ => by rw [hcode]; exact ⟨rfl, rfl⟩) fun _ _ => hover
  · have hrecord := (Run.advance_record hadv).1.symm
    rcases Run.advance_cases hadv with ⟨c, program, context, hc, hval, hres⟩
        | ⟨c, outcome, hc, hval, hres⟩ | ⟨rfl, hend⟩
    · have hnil : r.delivered = [] := by
        have hcode := (task_ok hs hth).code
        rw [Run.CodeOk, hc] at hcode
        exact hcode.1
      have hdel : r'.delivered = [] := by rw [hres, Run.resume_delivered]
      refine key hth hrecord ?_ (fun h => absurd hdel h) fun _ _ => ?_
      · rw [Run.outcomes, hc, hnil, hdel]
        rfl
      · rw [Run.isOver, Run.hasSuspended, hc, hnil]
        dsimp only
        rw [hval]
        rfl
    · have hdel : r'.delivered = r.delivered ++ [outcome] := by rw [hres, Run.resume_delivered]
      have hout := Run.outcomes_of_value hc hval
      refine key hth hrecord (hout.trans hdel.symm) (fun _ => ?_) fun o hnew => ?_
      · rw [hres]
        unfold Run.resume
        dsimp only
        split <;> exact ⟨rfl, rfl⟩
      · -- a suspension would have been the last outcome
        rw [Run.isOver, Run.hasSuspended_eq, hc, Bool.or_false, hout, ← hdel, ← Bool.not_eq_true]
        intro hsusp
        have hends := endsSuspended_ok hpass (hs.step l hl hls) hr'
          (Run.hasSuspended_of_delivered hsusp)
        obtain ⟨before, o', hlast, hbefore, -⟩ := hends.last
        obtain ⟨rfl, -⟩ := List.append_inj' (hnew.symm.trans hlast) rfl
        rw [hbefore] at hsusp
        cases hsusp
    · refine key hth hrecord ?_ (fun _ => ⟨rfl, rfl⟩) fun o hnew => ?_
      · rcases hend with ⟨c, _, hc, -, -⟩ | ⟨c, _, hc, -⟩ <;>
          rw [Run.outcomes, hc, List.append_nil]
      · rw [Run.outcomes] at hnew
        dsimp only at hnew
        cases List.append_cancel_left hnew

include hjson in
/-- **An await of a sleep that has come to its outcome is over, or has put the row off.** -/
theorem slept_ok {past : List (Sys Val × Label Val)}
    (htrace : Trace (Sys.step d) ok Sys.initial past s) {t : Nat} {r : Run Val}
    (hr : s.run? t = some r) (hw : r.workflowId = w) {i : Nat} {o : Outcome Val}
    (ho : r.outcomes[i]? = some o) (hsleep : (r.program (r.outcomes.take i)).isSleep = true) :
    Slept d.toRuntime r.context.eventHistory (r.program (r.outcomes.take i)) i o
      (sleepView d past s t w) := by
  induction htrace generalizing r with
  | start => cases hr
  | @step past s s' l hpast hl hls ih =>
    have hs := hpast.reach
    have hstep := Step.of_step hls
    rcases outcome_cases hpass hs hl hls hr ho with ⟨r₀, hr₀, hrecord, hprogram, hsnap, ho₀, htake⟩
        | ⟨r₀, tx, c, hth, hrecord, hover, hcode, hval, rfl, htake⟩
    · have hw₀ : r₀.workflowId = w := (congrArg WorkflowRecord.workflowId hrecord).trans hw
      have hslept := ih hr₀ hw₀ ho₀ (by rw [hprogram, htake]; exact hsleep)
      rw [hprogram, htake, hsnap] at hslept
      refine slept_step hs hstep hr₀ (fun hsusp hcaller => ?_) hslept
      -- a suspended run makes no call
      have hsuspended : r₀.hasSuspended = true := by
        rw [Run.hasSuspended_eq]
        exact List.any_eq_true.mpr ⟨o, List.mem_of_getElem? ho₀, hsusp⟩
      obtain ⟨n, hn⟩ := next_of_caller hs hstep hr₀ hcaller
      rw [(endsSuspended_ok hpass hs hr₀ hsuspended).next] at hn
      cases hn
    · have hw₀ : r₀.workflowId = w := (congrArg WorkflowRecord.workflowId hrecord).trans hw
      have hmeets := (sleeping_step hkeeps hpass hjson hs hl hls hth hw₀ hover
        (sleeping_ok hkeeps hpass hjson hpast hth hw₀ hover) hr).1
      rw [Run.Meets, hcode] at hmeets
      dsimp only at hmeets
      rw [hval] at hmeets
      rw [htake] at hsleep ⊢
      exact wp_value hmeets hsleep

end

/-- step `i` of the run is over, and the function has done something else with its outcome than to
pass a suspension on -/
def Run.isPast (r : Run Val) (i : Nat) : Bool :=
  r.delivered[i]?.any fun o => !(suspends o && (r.program (r.delivered.take (i + 1))).isSuspension)

/-- **No sleep is cut short and none is lost**, while no function goes on after a suspension: a step
has at most one SLEEP event, which stays the only one; no run gets past the step before its
`wakeup_at`, unless the log had none and there is no such time; and a run that comes to its end
without getting past has put the row off until then. -/
theorem sleep_kept
    (hjson : ∀ time, d.jsonbRejects (.obj [("wakeup_at", .str (d.isoformat time))]) = none)
    {past : List (Sys Val × Label Val)}
    (htrace : Trace (Sys.step d) (fun s l => s.leasesLive && s.passesSuspensions l) Sys.initial past s)
    (w : String) (i : Nat) :
    ((s.history w).countP fun e => e.toEntry.isAt i .sleep) ≤ 1
    ∧ (∀ e ∈ s.history w, e.toEntry.isAt i .sleep = true → ∀ s',
      Reach (Sys.step d) (fun s l => s.leasesLive && s.passesSuspensions l) s s' →
        (s'.history w).filter (fun e => e.toEntry.isAt i .sleep) = [e])
    ∧ ∀ t r, s.run? t = some r → r.workflowId = w →
      (r.program (r.delivered.take i)).isSleep = true →
        (r.isPast i = true →
          ((∀ e ∈ r.context.eventHistory, e.toEntry.isAt i .sleep = false) ∧ ∃ o,
            r.delivered[i]? = some o ∧ (r.program (r.delivered.take i)).IsOutOfRange s.clock o)
          ∨ ∃ e ∈ s.history w, e.toEntry.isAt i .sleep = true
            ∧ d.fromisoformat (wakeupAtRaw e) ≤ s.clock)
        ∧ (r.isEnded = true → i < r.delivered.length → r.isPast i = false →
          ∃ e ∈ s.history w, e.toEntry.isAt i .sleep = true
            ∧ PutOff d past t w (d.fromisoformat (wakeupAtRaw e))) := by
  have hkeeps (s : Sys Val) (l : Label Val) (s' : Sys Val)
      (hs : Reachable d (fun s l => s.leasesLive && s.passesSuspensions l) s)
      (h : (s.leasesLive && s.passesSuspensions l) = true) (hstep : Step d s l s') :
      s.keepsLease w l :=
    keepsLease_of_leasesLive hs hstep (Bool.and_eq_true_iff.mp h).1 w
  have hpass (s : Sys Val) (l : Label Val) (h : (s.leasesLive && s.passesSuspensions l) = true) :
      s.passesSuspensions l = true := (Bool.and_eq_true_iff.mp h).2
  refine ⟨?_, fun e he hat s' hs' => ?_, fun t r hr hw hsleep => ?_⟩
  · rw [← countP_stepEntries]
    exact sleep_count_le hkeeps hpass hjson htrace i
  · have he' : e ∈ s'.history w := by
      refine Reach.invariant (I := fun s' => e ∈ s'.history w) he ?_ hs'
      exact fun s₁ l s₂ he _ hls => (Step.of_step hls).mem_history he
    obtain ⟨past', htrace'⟩ := (htrace.reach.trans hs').exists_trace
    have hcount := sleep_count_le hkeeps hpass hjson htrace' (w := w) i
    rw [countP_stepEntries, List.countP_eq_length_filter] at hcount
    obtain ⟨e', hsingle⟩ : ∃ e', (s'.history w).filter (fun e => e.toEntry.isAt i .sleep) = [e'] :=
      List.length_eq_one_iff.mp (le_antisymm hcount
        (List.length_pos_of_mem (List.mem_filter.mpr ⟨he', hat⟩)))
    rw [hsingle]
    have hmem : e ∈ [e'] := hsingle ▸ List.mem_filter.mpr ⟨he', hat⟩
    rw [List.mem_singleton.mp hmem]
  · have hslept {o : Outcome Val} (ho : r.delivered[i]? = some o) :
        ((∀ e ∈ r.context.eventHistory, e.toEntry.isAt i .sleep = false)
          ∧ (r.program (r.delivered.take i)).IsOutOfRange s.clock o)
        ∨ ∃ e ∈ s.history w, e.toEntry.isAt i .sleep = true
          ∧ ((suspends o = false ∧ d.fromisoformat (wakeupAtRaw e) ≤ s.clock)
            ∨ (suspends o = true ∧ PutOff d past t w (d.fromisoformat (wakeupAtRaw e)))) := by
      have hlt := (List.getElem?_eq_some_iff.mp ho).1
      have htake : r.outcomes.take i = r.delivered.take i := by
        rw [Run.outcomes, List.take_append_of_le_length hlt.le]
      have hslept := slept_ok hkeeps hpass hjson htrace hr hw (i := i) (o := o)
        (by rw [Run.outcomes, List.getElem?_append_left hlt, ho]) (htake ▸ hsleep)
      rw [htake] at hslept
      refine hslept.imp id ?_
      rintro ⟨e, he, hat, hcase⟩
      obtain ⟨e₀, he₀, rfl⟩ := List.mem_map.mp (List.mem_filter.mp he).1
      refine ⟨e₀, he₀, hat, hcase.imp ?_ ?_⟩
      · rintro ⟨rfl, hclock⟩
        exact ⟨rfl, hclock⟩
      · rintro ⟨hsusp, -, hput⟩
        exact ⟨hsusp, hput⟩
    refine ⟨fun hpast => ?_, fun _ hlt hpast => ?_⟩
    · obtain ⟨o, ho, hgone⟩ := (Option.any_eq_true _ _).mp hpast
      rcases hslept ho with ⟨hnone, hrange⟩ | ⟨e, he, hat, ⟨-, hclock⟩ | ⟨hsusp, -⟩⟩
      · exact .inl ⟨hnone, o, ho, hrange⟩
      · exact .inr ⟨e, he, hat, hclock⟩
      · -- a suspension is the last outcome, and the function passes it on
        have hdel : r.delivered.any suspends = true :=
          List.any_eq_true.mpr ⟨o, List.mem_of_getElem? ho, hsusp⟩
        have hends := endsSuspended_ok hpass htrace.reach hr (Run.hasSuspended_of_delivered hdel)
        rw [← hends.length_eq ho hsusp, List.take_length, hsusp, hends.passes hdel] at hgone
        cases hgone
    · obtain ⟨o, ho⟩ : ∃ o, r.delivered[i]? = some o := ⟨_, List.getElem?_eq_getElem hlt⟩
      rcases hslept ho with ⟨-, hrange⟩ | ⟨e, he, hat, ⟨hsusp, -⟩ | ⟨-, hput⟩⟩
      · rw [Run.isPast, ho, Option.any_some, hrange.suspends] at hpast
        cases hpast
      · rw [Run.isPast, ho, Option.any_some, hsusp] at hpast
        cases hpast
      · exact ⟨e, he, hat, hput⟩

end

/-! ## an early wakeup, and a function that goes on -/

/-- the workflow naps for five microseconds; `h` catches the suspension and returns -/
def naps : Deployment Json :=
  .plain fun name => some fun _ delivered =>
    match delivered with
    | [] => .sleep (5 / 1000000) 0 0 0
    | [.error error] => if name == "h" then .ret (.ok .null) else .raise error
    | _ => .ret (.ok .null)

/-- a signal moves the end of the nap to now, and the workflow is claimed and run again -/
def wokenEarly : List (Label Json) :=
  suspendsAt "n" ++ [.advance 1, .advance 1, .tick 2, .request (.sendSignal "w" "go" .null), .read 2]
    ++ transact 2 4 ++ [.claim "B" { newRow "w" "n" none 0 with runAt := 2 }] ++ transact 3 2
    ++ [.read 3, .advance 3, .read 3] ++ transact 3 1 ++ [.advance 3, .advance 3]

/-- the run of thread `t` has napped and has gone on -/
def Sys.pastNap (s : Sys Json) (t : Nat) : Bool :=
  (s.run? t).any fun r => r.workflowId == "w" && (r.program (r.delivered.take 0)).isSleep
    && r.isPast 0

/-- the run of thread `t` has ended before the end of the nap -/
def Sys.endedInNap (s : Sys Json) (t : Nat) : Bool :=
  (s.run? t).any fun r => r.workflowId == "w" && (r.program (r.delivered.take 0)).isSleep
    && r.isEnded && decide (0 < r.delivered.length) && !r.isPast 0

theorem sleep_kept_woken : ∃ (past : List (Sys Json × Label Json)) (s : Sys Json) (e : EventRecord),
    s.clock = 2 ∧ e ∈ s.history "w" ∧ PutOff naps past 3 "w" (naps.fromisoformat (wakeupAtRaw e)) := by
  have hrun : (follow (Sys.step naps) (fun s l => s.leasesLive && s.passesSuspensions l)
      Sys.initial wokenEarly).any (fun s => s.clock == 2 && s.endedInNap 3) = true := by
    decide +kernel
  obtain ⟨s, hs, h⟩ := Reach.exists_of_follow _ hrun
  obtain ⟨past, htrace⟩ := hs.exists_trace
  obtain ⟨hclock, h⟩ := Bool.and_eq_true_iff.mp h
  obtain ⟨r, hr, h⟩ := (Option.any_eq_true _ _).mp h
  simp only [Bool.and_eq_true, beq_iff_eq, Bool.not_eq_true', decide_eq_true_eq] at h
  obtain ⟨⟨⟨⟨hw, hsleep⟩, hended⟩, hlt⟩, hpast⟩ := h
  obtain ⟨-, -, hkept⟩ := sleep_kept (fun _ => rfl) htrace "w" 0
  obtain ⟨e, he, -, hput⟩ := (hkept 3 r hr hw hsleep).2 hended hlt hpast
  exact ⟨past, s, e, beq_iff_eq.mp hclock, he, hput⟩

/-- the handler has gone past the nap while no lease has lapsed and the nap is not over -/
theorem sleep_cut_short : ∃ (s : Sys Json) (r : Run Json),
    Reachable naps (fun s _ => s.leasesLive) s ∧ s.run? 1 = some r ∧ r.workflowId = "w"
      ∧ (r.program (r.delivered.take 0)).isSleep = true ∧ r.isPast 0 = true
      ∧ ¬ ∃ e ∈ s.history "w", e.toEntry.isAt 0 .sleep = true
        ∧ naps.fromisoformat (wakeupAtRaw e) ≤ s.clock := by
  let early (s : Sys Json) : Bool := s.pastNap 1 && (s.history "w").all fun e =>
    !(e.toEntry.isAt 0 .sleep && decide (naps.fromisoformat (wakeupAtRaw e) ≤ s.clock))
  have hrun : (follow (Sys.step naps) (fun s _ => s.leasesLive) Sys.initial
      (suspendsAt "h" ++ [.advance 1])).any early = true := by
    decide +kernel
  obtain ⟨s, hs, h⟩ := Reach.exists_of_follow _ hrun
  obtain ⟨hpast, hearly⟩ := Bool.and_eq_true_iff.mp h
  obtain ⟨r, hr, h⟩ := (Option.any_eq_true _ _).mp hpast
  simp only [Bool.and_eq_true, beq_iff_eq] at h
  obtain ⟨⟨hw, hsleep⟩, hpast⟩ := h
  refine ⟨s, r, hs, hr, hw, hsleep, hpast, ?_⟩
  rintro ⟨e, he, hat, hclock⟩
  have hnot := List.all_eq_true.mp hearly e he
  rw [hat, decide_eq_true hclock] at hnot
  cases hnot

end TemporalLight
