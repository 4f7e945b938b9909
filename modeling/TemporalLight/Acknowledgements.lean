import TemporalLight.Programs
import TemporalLight.Starts
import TemporalLight.Views

/-!
# What the answer of an endpoint tells

`start_workflow` answers 201 and `send_signal` 204 after their one transaction has been committed;
the other answers, and exceptions, come without it or after its rollback.

* `wp_request_writes`  a request asks for nothing more once it has written
* `added_ok`           what a request has added so far, at every point of it
* `acknowledged`       hence its answer tells what is in the tables, from now on
-/

namespace TemporalLight
open Runs Resumption

/-! ## what is added to the tables -/

/-- a new row of `events` or of `workflows` -/
inductive Addition where
  | event (e : Entry)
  | workflow (key : String × String × Option String)

def Txn.additions (txn : Txn) : List Addition :=
  (txn.statements.filterMap Stmt.event?).map .event
    ++ (txn.statements.filterMap Stmt.created?).map .workflow

def Tx.additions (x : Tx) : List Addition :=
  (x.inserted.map EventRecord.toEntry).map .event ++ (x.created.map rowKey).map .workflow

def Request.additions : Request → List Addition
  | .startWorkflow id name input =>
    [.event ⟨id.text, -1, "workflow", .started, .obj [("input", input)]⟩,
      .workflow (id.text, name, none)]
  | .sendSignal w signalType payload =>
    [.event ⟨w, -1, "signal", .signal,
      .obj [("signal_type", .str signalType), ("payload", payload)]⟩]

/-- what has been added when the endpoint ends so -/
def Request.tells (r : Request) : Except PyExc Response → List Addition
  | .ok response => if response.statusCode < 300 then r.additions else []
  | .error _ => []

def Request.Told (r : Request) (result : Except PyExc Response) (added : List Addition) : Prop :=
  added = r.tells result

section
variable {Val : Type}

def Call.additions : (q : Call Val) → q.Reply → List Addition
  | .transaction txn, result => match (result : Except PyExc Bool) with
    | .ok true => txn.additions
    | _ => []
  | _, _ => []

/-- only some transactions return `False` -/
def Call.MayAnswer : (q : Call Val) → q.Reply → Prop
  | .transaction txn, result => (result : Except PyExc Bool) = .ok false →
    ∃ stmt ∈ txn.statements, stmt.mayReturn = true
  | _, _ => True

/-- a transaction that is done adds something -/
def Call.Adds : Call Val → Prop
  | .transaction txn => txn.additions ≠ []
  | _ => True

/-- the rules for code that asks for nothing more once it has written -/
def writeRules : Rules (Call Val) Call.Reply (List Addition) where
  rely added added' := added' = added
  ask q added := added = [] ∧ q.Adds
  answer q reply added added' := added' = added ++ q.additions reply ∧ q.MayAnswer reply
  keep _ _ := True
  rely_refl _ := rfl
  rely_trans h h' := h'.trans h

theorem wp_writes_pure {α : Type} {Φ : α → List Addition → Prop} {a : α} {added : List Addition}
    (h : Φ a added) : wp (writeRules : Rules (Call Val) Call.Reply _) (.pure a) Φ added := by
  rintro _ rfl
  exact h

/-- a transaction of an endpoint, and its answer afterwards -/
theorem wp_writes_transaction (r : Request) {txn : Txn} (htxn : txn.additions = r.additions)
    (hno : ∀ stmt ∈ txn.statements, stmt.mayReturn = false) {response : Response}
    (hsuccess : response.statusCode < 300) :
    wp writeRules (transaction txn >>= fun _ => pure response : Engine Val Response).run r.Told
      [] := by
  have hwrites : txn.additions ≠ [] := by
    rw [htxn]
    cases r <;> exact List.cons_ne_nil _ _
  rintro _ rfl
  refine ⟨⟨rfl, hwrites⟩, ?_⟩
  rintro reply _ ⟨rfl, hmay⟩
  refine ⟨trivial, ?_⟩
  match reply, hmay with
  | .error error, _ => exact wp_writes_pure rfl
  | .ok true, _ =>
    refine wp_writes_pure ?_
    show [] ++ txn.additions = if response.statusCode < 300 then r.additions else []
    rw [if_pos hsuccess, List.nil_append, htxn]
  | .ok false, hmay =>
    obtain ⟨stmt, hmem, hret⟩ := hmay rfl
    rw [hno stmt hmem] at hret
    cases hret

/-- **A request asks for nothing more once it has written, and its answer tells what it was.** -/
theorem wp_request_writes (r : Request) :
    wp writeRules (handleRequest r : Engine Val Response).run r.Told [] := by
  cases r with
  | startWorkflow id name input =>
    refine wp_writes_transaction _ rfl ?_ (by decide)
    simp [Txn.statements, insertInto, Stmt.mayReturn]
  | sendSignal w signalType payload =>
    rintro _ rfl
    refine ⟨⟨rfl, trivial⟩, ?_⟩
    rintro row _ ⟨rfl, -⟩
    refine ⟨trivial, ?_⟩
    cases row with
    | none => exact wp_writes_pure rfl
    | some record =>
      show wp writeRules (ExceptT.run (if _ then _ else _)) _ []
      split
      · exact wp_writes_pure rfl
      · refine wp_writes_transaction (.sendSignal w signalType payload) rfl ?_ (by decide)
        simp [Txn.statements, insertInto, Stmt.mayReturn]

/-! ## what a thread has added -/

variable {d : Deployment Val} {s s' : Sys Val} {ok : Sys Val → Label Val → Prop}
  {past : List (Sys Val × Label Val)}

variable {α : Type} (parts : Tx → List α) in
/-- what a step of thread `t` commits of its transaction -/
def Sys.gives (s : Sys Val) (t : Nat) : Label Val → List α
  | .commit u => if u = t then ((s.tx? t).map parts).getD [] else []
  | _ => []

variable {α : Type} (parts : Tx → List α) in
/-- what thread `t` has committed, when these steps have been taken, the last one first -/
def committedBy (t : Nat) : List (Sys Val × Label Val) → List α
  | [] => []
  | (s, l) :: past => committedBy t past ++ s.gives parts t l

/-- the rows that thread `t` has added -/
def addedBy (t : Nat) (past : List (Sys Val × Label Val)) : List Addition :=
  committedBy Tx.additions t past

/-- the updates of rows that thread `t` has made -/
def updatedBy (t : Nat) (past : List (Sys Val × Label Val)) : List (String × RowUpdate) :=
  committedBy Tx.updates t past

/-- the addition is in the tables -/
def Sys.Contains (s : Sys Val) : Addition → Prop
  | .event e => ∃ e' ∈ s.events, e'.toEntry = e
  | .workflow key => ∃ row, s.row? key.1 = some row ∧ rowKey row = key

theorem Sys.Contains.step {l : Label Val} (hstep : Step d s l s') {a : Addition}
    (h : s.Contains a) : s'.Contains a := by
  cases a with
  | event e =>
    obtain ⟨e', he', heq⟩ := h
    exact ⟨e', hstep.mem_events he', heq⟩
  | workflow key =>
    obtain ⟨row, hrow, hkey⟩ := h
    rcases hstep.tables_cases with htab | ⟨t, task, x, txn, k, -, -, -, -, rfl⟩
    · exact ⟨row, htab.row?.trans hrow, hkey⟩
    · refine ⟨rowAfter key.1 x.updates row, ?_, ?_⟩
      · rw [Sys.setThread_row?, Sys.row?_publish, hrow]
        rfl
      · rw [← hkey]
        simp [rowKey]

theorem Txn.length_created_le (txn : Txn) :
    (txn.statements.filterMap Stmt.created?).length ≤ 1 := by
  have hend (w : String) (ty : EventType) (outcome : Except PyExc (String × Json)) status parentInfo
      childStatus : ((writeTerminalWorkflowEvent w ty outcome status parentInfo
        childStatus).filterMap Stmt.created?).length ≤ 1 := by
    cases parentInfo <;> exact Nat.zero_le 1
  cases txn with
  | createWorkflow w name input => exact Nat.le_refl 1
  | createChildWorkflow p c name input i => exact Nat.le_refl 1
  | completeWorkflow w result parentInfo => exact hend _ _ _ _ _ _
  | failWorkflow w message parentInfo => exact hend _ _ _ _ _ _
  | _ => exact Nat.zero_le 1

/-- **What a commit adds is in the tables.** -/
theorem contains_of_commit (hs : Reachable d ok s) {t : Nat} {x : Tx} (hx : s.tx? t = some x)
    (hrest : x.rest = []) {a : Addition} (ha : a ∈ x.additions) : (s.publish t x).Contains a := by
  rcases List.mem_append.mp ha with ha | ha
  · obtain ⟨e, he, rfl⟩ := List.mem_map.mp ha
    obtain ⟨e', he', rfl⟩ := List.mem_map.mp he
    exact ⟨e', mem_events_publish.mpr (.inr he'), rfl⟩
  · obtain ⟨key, hkey, rfl⟩ := List.mem_map.mp ha
    obtain ⟨row, hrow, rfl⟩ := List.mem_map.mp hkey
    have hlength : x.created.length ≤ 1 := by
      rcases committed hs hx hrest with ⟨-, hnil⟩ | ⟨-, hcreated, -⟩
      · rw [hnil]
        exact Nat.zero_le 1
      · rw [← List.length_map, hcreated]
        exact x.txn.length_created_le
    obtain ⟨row', hone⟩ := List.length_eq_one_iff.mp
      (Nat.le_antisymm hlength (List.length_pos_of_mem hrow))
    obtain rfl : row = row' := List.mem_singleton.mp (hone ▸ hrow)
    refine ⟨rowAfter row.workflowId x.updates row, ?_, ?_⟩
    · show (s.publish t x).row? row.workflowId = _
      rw [Sys.row?_publish, (keys_ok hs).fresh t x hx row hrow, Option.none_or, hone,
        Rows.lookup_cons, if_pos rfl]
      rfl
    · simp [rowKey]

theorem additions_of_commit (hs : Reachable d ok s) {t : Nat} {x : Tx} (hx : s.tx? t = some x)
    (hrest : x.rest = []) :
    x.additions = (Call.transaction x.txn : Call Val).additions x.result := by
  have hok := tx_ok hs hx
  by_cases hres : x.result = .ok true
  · have hexec := hok.executed_of_rest hrest hres
    rw [Tx.additions, hok.entries hres, hok.rows hres, hexec, hres]
    rfl
  · obtain ⟨-, hinserted, hcreated, -⟩ := hok.quiet hres
    rw [Tx.additions, hinserted, hcreated]
    match x.result, hres with
    | .ok true, hres => exact absurd rfl hres
    | .ok false, _ => rfl
    | .error error, _ => rfl

theorem mayAnswer_of_tx (hs : Reachable d ok s) {t : Nat} {x : Tx} (hx : s.tx? t = some x) :
    (Call.transaction x.txn : Call Val).MayAnswer x.result := by
  intro hres
  refine returned_of_false (Q := fun _ stmt => stmt.mayReturn = true) ?_ (fun _ _ _ _ _ h => h)
    hs hx hres
  exact fun s t x stmt _ heff => Sys.mayReturn_of_effect heff

theorem commit_task (hs : Reachable d ok s) {t : Nat} {task : Task Val} {x : Tx}
    (hth : s.threads[t]? = some ⟨task, some x, true⟩) (hstep : Step d s (.commit t) s') :
    ∃ k : (Call.transaction x.txn : Call Val).Reply → Task Val,
      task.next? d t = some ⟨.transaction x.txn, k⟩ ∧ x.rest = []
        ∧ s' = (s.publish t x).setThread t ⟨k x.result, none, true⟩ := by
  obtain ⟨-, k, hk⟩ := txn_of_thread hs hth rfl
  cases hstep with
  | @commit _ task' x' txn k' hth' hrest hq =>
    rw [hth] at hth'
    obtain ⟨rfl, hx, -⟩ := Thread.mk.inj (Option.some.inj hth')
    obtain rfl := Option.some.inj hx
    rw [hk] at hq
    obtain ⟨htxn, hk'⟩ := Sigma.mk.inj (Option.some.inj hq)
    obtain rfl := Call.transaction.inj htxn
    obtain rfl := eq_of_heq hk'
    exact ⟨k, hk, hrest, rfl⟩

/-! ## requests -/

section
variable {α : Type} {parts : Tx → List α}

theorem Sys.gives_of_none {t : Nat} (h : s.tx? t = none) (l : Label Val) :
    s.gives parts t l = [] := by
  cases l with
  | commit u =>
    rw [Sys.gives, h]
    exact ite_self []
  | _ => rfl

theorem committedBy_of_ne {t : Nat} {l : Label Val} (h : l ≠ .commit t) :
    committedBy parts t ((s, l) :: past) = committedBy parts t past := by
  have hnil : s.gives parts t l = [] := by
    cases l with
    | commit u => exact if_neg fun hu => h (congrArg Label.commit hu)
    | _ => rfl
  rw [committedBy, hnil, List.append_nil]

theorem committedBy_commit {t : Nat} {x : Tx} (h : s.tx? t = some x) :
    committedBy parts t ((s, .commit t) :: past) = committedBy parts t past ++ parts x := by
  rw [committedBy, Sys.gives, if_pos rfl, h, Option.map_some, Option.getD_some]

end

theorem Step.length_threads_le {l : Label Val} (hstep : Step d s l s') :
    s.threads.length ≤ s'.threads.length := by
  cases hstep <;> simp [Sys.setThread, Sys.spawn, Sys.setNextId, Sys.publish]

theorem committedBy_of_length {α : Type} {parts : Tx → List α}
    (h : Trace (Sys.step d) ok Sys.initial past s) {t : Nat} (ht : s.threads.length ≤ t) :
    committedBy parts t past = [] := by
  induction h with
  | start => rfl
  | @step past s s' l hpast _ hstep ih =>
    have ht' := Nat.le_trans (Step.of_step hstep).length_threads_le ht
    have hnone : s.tx? t = none := by
      rw [Sys.tx?, List.getElem?_eq_none ht']
      rfl
    rw [committedBy, ih ht', Sys.gives_of_none hnone, List.append_nil]

/-- what a request has added is what its code may have, and when it has added nothing it has
updated nothing -/
theorem added_ok (h : Trace (Sys.step d) ok Sys.initial past s) {t : Nat} {r : Request}
    {c : Engine Val Response} {tx : Option Tx} {alive : Bool}
    (hth : s.threads[t]? = some ⟨.request r c, tx, alive⟩) :
    wp writeRules c.run r.Told (addedBy t past)
      ∧ (addedBy t past = [] → updatedBy t past = []) := by
  induction h generalizing t r c tx alive with
  | start => cases hth
  | @step past s s' l hpast _ hl ih =>
    have hs := hpast.reach
    have hstep := Step.of_step hl
    by_cases hcommit : l = .commit t
    · subst hcommit
      obtain ⟨task, x, hth₀⟩ : ∃ task x, s.threads[t]? = some ⟨task, some x, true⟩ := by
        cases hstep with
        | commit hth₀ hrest hq => exact ⟨_, _, hth₀⟩
      obtain ⟨k, hk, hrest, rfl⟩ := commit_task hs hth₀ hstep
      have hx := Sys.tx?_eq hth₀
      have hadds : addedBy t ((s, .commit t) :: past)
          = addedBy t past ++ (Call.transaction x.txn : Call Val).additions x.result := by
        rw [addedBy, committedBy_commit hx, additions_of_commit hs hx hrest]
        rfl
      rw [Sys.getElem?_setThread (s := s.publish t x) hth₀, if_pos rfl] at hth
      have htask := congrArg Thread.task (Option.some.inj hth)
      obtain ⟨c₀, k₀, rfl, hn, rfl⟩ := Task.request_of_next hk htask
      obtain ⟨hwp, hquiet⟩ := ih hth₀
      rw [Resumption.pending?_eq_some hn] at hwp
      refine ⟨(wp_answer hwp ⟨hadds, mayAnswer_of_tx hs hx⟩).2, fun hnil => ?_⟩
      rw [hadds, List.append_eq_nil_iff] at hnil
      have hupdates : updatedBy t ((s, .commit t) :: past) = updatedBy t past ++ x.updates :=
        committedBy_commit hx
      rw [hupdates, hquiet hnil.1, List.nil_append]
      -- a transaction that is done would have added a row
      by_cases hres : x.result = .ok true
      · rw [hres] at hnil
        exact absurd hnil.2 (wp_ask hwp).2
      · exact ((tx_ok hs hx).quiet hres).2.2.2
    · rw [addedBy, updatedBy, committedBy_of_ne hcommit, committedBy_of_ne hcommit, ← addedBy,
        ← updatedBy]
      rcases hstep.task_cases hth with ⟨⟨task, tx₀, alive₀⟩, hth₀, htask⟩ | ⟨ht, hnew⟩
          | ⟨task, tx₀, q, k, reply, hth₀, hq, htask, hans⟩ | ⟨_, _, -, -, -, htask⟩
      · obtain rfl : .request r c = task := htask
        exact ih hth₀
      · cases hnew
        rw [addedBy, updatedBy, committedBy_of_length hpast (Nat.le_of_eq ht.symm),
          committedBy_of_length hpast (Nat.le_of_eq ht.symm)]
        exact ⟨wp_request_writes r, fun _ => rfl⟩
      · obtain ⟨c₀, k₀, rfl, hn, rfl⟩ := Task.request_of_next hq htask.symm
        obtain ⟨hwp, hquiet⟩ := ih hth₀
        rw [Resumption.pending?_eq_some hn] at hwp
        refine ⟨(wp_answer hwp ?_).2, hquiet⟩
        cases hans with
        | commit hth hrest => exact (hcommit rfl).elim
        | @read _ _ th hreply =>
          cases q with
          | transaction txn => cases hreply
          | _ => exact ⟨(List.append_nil _).symm, trivial⟩
        | body result => exact ⟨(List.append_nil _).symm, trivial⟩
      · cases htask

/-- what a thread has added stays in the tables -/
theorem contains_of_added (h : Trace (Sys.step d) ok Sys.initial past s) {t : Nat} {a : Addition}
    (ha : a ∈ addedBy t past) : s.Contains a := by
  induction h with
  | start => cases ha
  | @step past s s' l hpast _ hl ih =>
    have hs := hpast.reach
    have hstep := Step.of_step hl
    rcases List.mem_append.mp ha with ha | ha
    · exact (ih ha).step hstep
    · cases hstep with
      | @commit u task x txn k hth hrest hq =>
        by_cases hu : u = t
        · subst hu
          have hx := Sys.tx?_eq hth
          rw [Sys.gives, if_pos rfl, hx] at ha
          have hcontains := contains_of_commit hs hx hrest ha
          cases a with
          | event e => exact hcontains
          | workflow key => exact hcontains
        · rw [Sys.gives, if_neg hu] at ha
          cases ha
      | _ => cases ha

/-- **The answer of an endpoint tells what its request has added.**  With 201 and 204 these are the
rows that it was asked for, with any other answer or an exception there are none, and as long as it
has a call left there are none yet; where there are none, no row has been updated either.  What has
been added is in the tables from then on. -/
theorem acknowledged (h : Trace (Sys.step d) ok Sys.initial past s) {t : Nat} {r : Request}
    {c : Engine Val Response} {tx : Option Tx} {alive : Bool}
    (hth : s.threads[t]? = some ⟨.request r c, tx, alive⟩) :
    (∀ result, c.run.value? = some result → addedBy t past = r.tells result
        ∧ (r.tells result = [] → updatedBy t past = []) ∧ ∀ a ∈ r.tells result, s.Contains a)
      ∧ ((c.run.pending?).isSome = true → addedBy t past = [] ∧ updatedBy t past = []) := by
  obtain ⟨hwp, hquiet⟩ := added_ok h hth
  refine ⟨fun result hresult => ?_, fun hpending => ?_⟩
  · rw [Resumption.value?_eq_some hresult] at hwp
    have hadded : r.Told result (addedBy t past) := wp_value hwp
    have hadded : addedBy t past = r.tells result := hadded
    rw [hadded] at hquiet
    exact ⟨hadded, hquiet, fun a ha => contains_of_added h (hadded ▸ ha)⟩
  · obtain ⟨n, hn⟩ := Option.isSome_iff_exists.mp hpending
    rw [Resumption.pending?_eq_some hn] at hwp
    have hnone := (wp_ask hwp).1
    exact ⟨hnone, hquiet hnone⟩

end

/-! ## a workflow is started, another one is not there -/

def answersTwo : List (Label Json) :=
  [.request (.startWorkflow .w "n" (.obj [])), .request (.sendSignal "v" "go" .null)]
    ++ transact 0 3 ++ [.read 1]

/-- the endpoint of thread `t` has answered with `statusCode` -/
def Sys.answeredWith (s : Sys Json) (t statusCode : Nat) : Bool :=
  match s.threads[t]? with
  | some ⟨.request _ c, _, _⟩ => match c.run.value? with
    | some (.ok response) => response.statusCode == statusCode
    | _ => false
  | _ => false

theorem Sys.answeredWith_spec {s : Sys Json} {t statusCode : Nat}
    (h : s.answeredWith t statusCode = true) : ∃ r c tx alive response,
      s.threads[t]? = some ⟨.request r c, tx, alive⟩ ∧ c.run.value? = some (.ok response)
        ∧ response.statusCode = statusCode := by
  unfold Sys.answeredWith at h
  split at h
  · rename_i r c tx alive hth
    split at h
    · rename_i response hval
      exact ⟨r, c, tx, alive, response, hth, hval, beq_iff_eq.mp h⟩
    · cases h
  · cases h

theorem acknowledged_twice : ∃ (s : Sys Json) (past : List (Sys Json × Label Json)) (r : Request),
    s.answeredWith 0 201 = true ∧ addedBy 0 past = r.additions
      ∧ (∀ a ∈ r.additions, s.Contains a) ∧ s.answeredWith 1 404 = true ∧ addedBy 1 past = []
      ∧ updatedBy 1 past = [] := by
  have hrun : (follow (Sys.step sleeps) (fun _ _ => true) Sys.initial answersTwo).any
      (fun s => s.answeredWith 0 201 && s.answeredWith 1 404) = true := by
    decide +kernel
  obtain ⟨s, hs, h⟩ := Reach.exists_of_follow _ hrun
  obtain ⟨past, htrace⟩ := hs.exists_trace
  obtain ⟨h₀, h₁⟩ := Bool.and_eq_true_iff.mp h
  obtain ⟨r, c, tx, alive, response, hth, hval, hstatus⟩ := Sys.answeredWith_spec h₀
  obtain ⟨r', c', tx', alive', response', hth', hval', hstatus'⟩ := Sys.answeredWith_spec h₁
  obtain ⟨hadded, -, hcontains⟩ := (acknowledged htrace hth).1 _ hval
  obtain ⟨hadded', hquiet, -⟩ := (acknowledged htrace hth').1 _ hval'
  rw [Request.tells, hstatus, if_pos (by decide)] at hadded hcontains
  rw [Request.tells, hstatus', if_neg (by decide)] at hadded' hquiet
  exact ⟨s, past, r, h₀, hadded, hcontains, h₁, hadded', hquiet rfl⟩

end TemporalLight
