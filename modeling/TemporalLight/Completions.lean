import TemporalLight.Stability

/-!
# The completion signals of a child

A completion signal for `c` is inserted by a terminal transaction of a run of `c`, after its
`UPDATE` of the row of `c`.  The row lock is held until the commit, so no other completion signal for
`c` is committed meanwhile, and what a wait for a child has read stays the first answer.

* `completion_by`         who writes a completion signal
* `completions_serial`    its id is larger than those of the committed ones
* `completions_in_order`  hence the answers of a wait for a child come in order
-/

namespace TemporalLight
open Runs

section
variable {Val : Type} {d : Deployment Val} {s s' : Sys Val} {ok : Sys Val → Label Val → Prop}
  {c : String}

theorem childId_of_result {e : EventRecord} (h : isChildResultSignal c e = true)
    {parent : ParentInfo} {childStatus : String} {outcome : String × Json}
    (hp : e.payload = childSignalPayload parent childStatus outcome) : parent.childId = c := by
  have := (Bool.and_eq_true_iff.mp h).2
  rw [hp] at this
  simpa [childSignalPayload, Json.getIs] using this

/-- **A completion signal is written by a terminal transaction of a run of the child.** -/
theorem completion_by (hplain : ∀ s l, ok s l → l.plainSignal = true) (hs : Reachable d ok s)
    {t : Nat} {task : Task Val} {x : Tx} {alive : Bool}
    (hth : s.threads[t]? = some ⟨task, some x, alive⟩) {e : EventRecord} (he : e ∈ x.inserted)
    (hc : isChildResultSignal c e = true) :
    ∃ r status, task = .run r ∧ r.workflowId = c ∧ x.txn.IsTerminalOf c status
      ∧ e.toEntry.eventType = .signal := by
  have hissue : task.Issues s.loaded x.txn := issues_of_thread hs hth rfl
  have hmem := (tx_ok hs (Sys.tx?_eq hth)).mem_entries he
  have hans : Wait.isAnswer (.child c) e = true := hc
  rcases hissue.of_answer hmem hans with ⟨T, payload, htxn⟩
      | ⟨r, parent, status, childStatus, outcome, htask, hparent, hstatus, heq, -⟩
  · -- the signal of a request is of another type
    rcases hissue.cases with ⟨_, _, -, h⟩ | ⟨r, -, h⟩ | ⟨_, _, _, _, -, h⟩
        | ⟨w, T', payload', c', htask, h⟩ | ⟨_, _, -, h⟩
    · rw [htxn] at h
      cases h
    · rw [htxn] at h
      cases h
    · rw [htxn] at h
      cases h
    · have hT := plain_request hplain hs hth htask
      rw [h] at hmem
      simp only [Txn.statements, List.filterMap_append, List.mem_append] at hmem
      rcases hmem with hmem | hmem
      · obtain ⟨p, hp, heq⟩ := mem_insertInto hmem
        have hpay : e.payload = .obj [("signal_type", .str T'), ("payload", payload')] := by
          rw [heq]
          exact (Except.ok.inj hp).symm
        have hsig := (Bool.and_eq_true_iff.mp (Bool.and_eq_true_iff.mp hc).1).2
        rw [hpay] at hsig
        exact absurd (by simpa [Json.getIs] using hsig) hT
      · simp [Stmt.event?] at hmem
    · rw [htxn] at h
      cases h
  · have hchild : parent.childId = c := childId_of_result hc (congrArg Entry.payload heq)
    have hself := (parent_of_run hs hparent rfl).1
    rw [hchild] at hself
    exact ⟨r, status, htask, hself.symm, hself ▸ hstatus, by rw [heq]⟩

theorem Txn.IsTerminalOf.statements {w : String} {status : WorkflowStatus} {txn : Txn}
    (h : txn.IsTerminalOf w status) : ∃ ty payload tail, ty.isTerminal = true
      ∧ txn.statements = insertInto w (-1) "workflow" ty payload
        ++ .update w (.terminal status) :: tail := by
  rcases h with ⟨result, parentInfo, rfl, rfl⟩ | ⟨message, parentInfo, rfl, rfl⟩
  · exact ⟨_, _, _, rfl, by
      simp only [Txn.statements, writeTerminalWorkflowEvent, List.append_assoc]
      rfl⟩
  · exact ⟨_, _, _, rfl, by
      simp only [Txn.statements, writeTerminalWorkflowEvent, List.append_assoc]
      rfl⟩

/-- whoever has inserted a completion signal holds the row of the child -/
theorem lock_of_completion (hplain : ∀ s l, ok s l → l.plainSignal = true) (hs : Reachable d ok s)
    {t : Nat} {x : Tx} (hx : s.tx? t = some x) {e : EventRecord} (he : e ∈ x.inserted)
    (hc : isChildResultSignal c e = true) : (c, .noKeyUpdate) ∈ x.locks := by
  obtain ⟨task, alive, hth⟩ := Sys.tx?_eq_some hx
  obtain ⟨r, status, -, -, hstatus, hty⟩ := completion_by hplain hs hth he hc
  obtain ⟨ty, payload, tail, hterm, hstmts⟩ := hstatus.statements
  obtain ⟨hres, hmem⟩ := (tx_ok hs hx).mem_inserted he
  obtain ⟨stmt, hstmt, hev⟩ := List.mem_filterMap.mp hmem
  have horder := (tx_ok hs hx).order hres
  rw [hstmts] at horder
  have hupdate : Stmt.update c (.terminal status) ∈ x.executed := by
    rcases List.append_eq_append_iff.mp horder with ⟨pre, hpre, -⟩ | ⟨post, hpost, hcons⟩
    · -- too early: only the terminal event has been inserted
      have hstmt' : stmt ∈ insertInto c (-1) "workflow" ty payload := by
        rw [hpre]
        exact List.mem_append_left _ hstmt
      obtain ⟨p, -, heq⟩ := mem_insertInto (List.mem_filterMap.mpr ⟨stmt, hstmt', hev⟩)
      rw [heq] at hty
      obtain rfl : ty = .signal := hty
      cases hterm
    · cases post with
      | nil =>
        rw [List.append_nil] at hpost
        rw [hpost] at hstmt
        obtain ⟨p, -, heq⟩ := mem_insertInto (List.mem_filterMap.mpr ⟨stmt, hstmt, hev⟩)
        rw [heq] at hty
        obtain rfl : ty = .signal := hty
        cases hterm
      | cons a post =>
        rw [hpost, (List.cons.inj hcons).1]
        exact List.mem_append_right _ List.mem_cons_self
  exact Tx.mem_locks hupdate rfl

/-- **A completion signal is newer than all committed ones for the same child.** -/
theorem completions_serial (hplain : ∀ s l, ok s l → l.plainSignal = true) (hs : Reachable d ok s)
    {t : Nat} {x : Tx} (hx : s.tx? t = some x) {e e' : EventRecord} (he : e ∈ x.inserted)
    (hc : isChildResultSignal c e = true) (he' : e' ∈ s.events)
    (hc' : isChildResultSignal c e' = true) : e'.eventId < e.eventId := by
  refine Reach.invariant_of_reach (I := fun s : Sys Val => ∀ t x e, s.tx? t = some x →
    e ∈ x.inserted → isChildResultSignal c e = true → ∀ e' ∈ s.events,
      isChildResultSignal c e' = true → e'.eventId < e.eventId) ?_ ?_ hs t x e hx he hc e' he' hc'
  · intro t x e _ _ _ e' he'
    cases he'
  intro s l s' hr ih _ hstep t x' e hx' he hc
  replace hstep := Step.of_step hstep
  refine hstep.newer (ids_ok hr) hx' he (fun x hx he => ih t x e hx he hc) ?_
  -- both transactions would hold the row of the child
  intro u y x _ hut hy hx he a ha hca
  cases locks_compatible hr hut hy hx (lock_of_completion hplain hr hy ha hca)
    (lock_of_completion hplain hr hx he hc)

/-- no completion signal is committed before one that has been read -/
theorem completions_in_order (hplain : ∀ s l, ok s l → l.plainSignal = true)
    (hs : Reachable d ok s) (l : Label Val) (w : String) :
    s.answersInOrder w (.child c) l = true := by
  cases l with
  | commit t =>
    simp only [Sys.answersInOrder]
    cases hx : s.tx? t with
    | none => rfl
    | some x =>
      simp only [Option.all_some, List.all_eq_true]
      intro e he
      cases hans : (e.workflowId == w && Wait.isAnswer (.child c) e) with
      | false => rfl
      | true =>
        rw [Bool.not_true, Bool.false_or, List.all_eq_true]
        intro history hh
        by_cases hw : history.1 = w
        · rw [Bool.or_eq_true_iff]
          refine .inr ?_
          cases hfirst : history.2.find? (Wait.isAnswer (.child c)) with
          | none => rfl
          | some first =>
            have hmem := mem_events_of_loaded hs (w := history.1) (h := history.2) hh
              (List.mem_of_find?_eq_some hfirst)
            have hlt := completions_serial hplain hs hx he (Bool.and_eq_true_iff.mp hans).2
              (Sys.mem_history.mp hmem).1 (List.find?_some hfirst)
            simpa using hlt
        · simp [hw]
  | _ => rfl

end

end TemporalLight
