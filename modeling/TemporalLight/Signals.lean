import TemporalLight.Leases

/-!
# Signals and the two readings of them

A wait is answered by a row of the log, and the test for it is written twice: by the finders of
the Python code, and by the SQL of the mark-waiting functions.

* `request_ok`        what holds of all requests holds of the one an endpoint works on;
* `signal_sent`, `signal_ok`
                      the three forms of a signal row;
* `answerMatches_of_isAnswer`, `isAnswer_of_answerMatches`
                      on such rows the two tests agree.
-/

namespace TemporalLight
open Runs

def Label.plainSignal {Val : Type} : Label Val → Bool
  | .request (.sendSignal _ signalType _) => signalType != childCompletedSignalType
  | _ => true

/-- the id of a child that a signal of the reserved type tells, if any, is a string -/
def tellsText (signalType : String) (payload : Json) : Bool :=
  signalType != childCompletedSignalType || match payload.get? "child_id" with
    | none => true
    | some .null => true
    | some (.str _) => true
    | some _ => false

/-- as `plainSignal`, but signals of the reserved type may tell the end of a child -/
def Label.textSignal {Val : Type} : Label Val → Bool
  | .request (.sendSignal _ signalType payload) => tellsText signalType payload
  | _ => true

/-- a marker, a signal of a client that satisfies `Sent`, or the end of a child -/
def Entry.SentAs (Sent : String → Json → Prop) (e : Entry) : Prop := e.eventType = .signal →
  (∃ wait : Wait, e.payload = wait.markerPayload)
  ∨ (∃ signalType payload, Sent signalType payload
      ∧ e.payload = .obj [("signal_type", .str signalType), ("payload", payload)])
  ∨ ∃ parent childStatus outcome, (childStatus = "completed" ∨ childStatus = "failed")
      ∧ e.payload = childSignalPayload parent childStatus outcome

/-- a marker, a signal of a client, or the end of a child -/
def Entry.SignalOk (e : Entry) : Prop := e.eventType = .signal →
  (∃ wait : Wait, e.payload = wait.markerPayload)
  ∨ (∃ signalType payload, signalType ≠ childCompletedSignalType
      ∧ e.payload = .obj [("signal_type", .str signalType), ("payload", payload)])
  ∨ ∃ parent childStatus outcome, (childStatus = "completed" ∨ childStatus = "failed")
      ∧ e.payload = childSignalPayload parent childStatus outcome

section
variable {Val : Type} {d : Deployment Val} {s s' : Sys Val} {ok : Sys Val → Label Val → Prop}

theorem Task.request_of_next? {t : Nat} {task : Task Val} {q : Call Val} {k : q.Reply → Task Val}
    (hq : task.next? d t = some ⟨q, k⟩) {reply : q.Reply} {r : Request} {c : Engine Val Response}
    (h : k reply = .request r c) : ∃ c₀, task = .request r c₀ := by
  cases task with
  | claiming worker row =>
    obtain ⟨rfl, hk⟩ := Sigma.mk.inj (Option.some.inj hq)
    obtain rfl := eq_of_heq hk
    cases h
  | request r₀ c₀ =>
    obtain ⟨m, -, hm⟩ := Option.map_eq_some_iff.mp hq
    obtain ⟨rfl, hk⟩ := Sigma.mk.inj hm
    obtain rfl := eq_of_heq hk
    obtain ⟨rfl, -⟩ := Task.request.inj h
    exact ⟨c₀, rfl⟩
  | _ =>
    obtain ⟨m, -, hm⟩ := Option.map_eq_some_iff.mp hq
    obtain ⟨rfl, hk⟩ := Sigma.mk.inj hm
    obtain rfl := eq_of_heq hk
    cases h

theorem request_ok {P : Request → Prop} (hok : ∀ s r, ok s (.request r) → P r)
    (hs : Reachable d ok s) {t : Nat} {th : Thread Val} (hth : s.threads[t]? = some th) {r : Request}
    {c : Engine Val Response} (htask : th.task = .request r c) : P r := by
  refine Reach.invariant (I := fun s : Sys Val => ∀ t th c, s.threads[t]? = some th →
    th.task = .request r c → P r) (by simp [Sys.initial]) ?_ hs t th c hth htask
  intro s l s' ih hl hstep t th c hth htask
  rcases (Step.of_step hstep).task_cases hth with ⟨th₀, hth₀, heq⟩ | ⟨-, hnew⟩
      | ⟨task, tx, q, k, reply, hth₀, hq, heq, -⟩ | ⟨r', r'', -, -, -, heq⟩
  · exact ih t th₀ c hth₀ (heq.symm.trans htask)
  · rw [htask] at hnew
    cases hnew with
    | request r => exact hok s r hl
  · obtain ⟨c₀, rfl⟩ := Task.request_of_next? hq (heq.symm.trans htask)
    exact ih t _ c₀ hth₀ rfl
  · rw [heq] at htask
    cases htask

theorem plain_request (hplain : ∀ s l, ok s l → l.plainSignal = true) (hs : Reachable d ok s)
    {t : Nat} {th : Thread Val} (hth : s.threads[t]? = some th) {w signalType : String}
    {payload : Json} {c : Engine Val Response}
    (htask : th.task = .request (.sendSignal w signalType payload) c) :
    signalType ≠ childCompletedSignalType := by
  have h := request_ok (P := fun r => (Label.request r : Label Val).plainSignal = true)
    (fun s r => hplain s _) hs hth htask
  simpa [Label.plainSignal] using h

/-! ## the form of a signal -/

/-- the signals of a run -/
theorem Txn.OfRun.signal_sent {L : Loaded} {w : String} {wait? : Option Wait} {txn : Txn}
    (h : txn.OfRun w wait? L) {e : Entry} (he : e ∈ txn.statements.filterMap Stmt.event?)
    (Sent : String → Json → Prop) : e.SentAs Sent := by
  intro hty
  cases txn with
  | completeWorkflow w' result parentInfo =>
    obtain ⟨o, -, rfl | ⟨parent, -, rfl⟩⟩ := mem_writeTerminal he
    · cases hty
    · exact .inr (.inr ⟨parent, "completed", o, .inl rfl, rfl⟩)
  | failWorkflow w' message parentInfo =>
    obtain ⟨o, -, rfl | ⟨parent, -, rfl⟩⟩ := mem_writeTerminal he
    · cases hty
    · exact .inr (.inr ⟨parent, "failed", o, .inr rfl, rfl⟩)
  | createChildWorkflow p c name input i =>
    simp only [Txn.statements, List.filterMap_append, List.mem_append] at he
    rcases he with ((he | he) | he) | he
    · simp [Stmt.event?] at he
    · obtain ⟨q, -, rfl⟩ := mem_insertInto he
      cases hty
    · obtain ⟨q, -, rfl⟩ := mem_insertInto he
      cases hty
    · simp [Stmt.event?] at he
  | insertEvent w' i n ty payload =>
    obtain ⟨p, rfl, rfl⟩ := mem_insertInto he
    rcases h.2 with ⟨-, rfl | rfl | rfl | rfl⟩ | ⟨-, -, wait, hw⟩
    · cases hty
    · cases hty
    · cases hty
    · cases hty
    · exact .inl ⟨wait, Except.ok.inj hw⟩
  | markWorkflowWaiting w' wait => simp [Txn.statements, Stmt.event?] at he
  | updateWorkflowRunAt w' time => simp [Txn.statements, Stmt.event?] at he
  | _ => cases h

/-- **The three forms of a signal.** -/
theorem signal_sent_to {Sent : String → String → Json → Prop}
    (hsent : ∀ s w T payload, ok s (.request (.sendSignal w T payload)) → Sent w T payload)
    (hs : Reachable d ok s) {e : EventRecord} (he : e ∈ s.events) :
    e.toEntry.SentAs (Sent e.workflowId) := by
  refine committed_of_inserted (P := fun e => e.toEntry.SentAs (Sent e.workflowId))
    (fun s hr t x hx e he => ?_) hs he
  obtain ⟨task, alive, hth⟩ := Sys.tx?_eq_some hx
  have hstmt := (tx_ok hr hx).mem_entries he
  rcases (issues_of_thread hr hth rfl).cases with ⟨worker, row, -, htxn⟩ | ⟨r, -, hrun⟩
      | ⟨id, name, input, c, -, htxn⟩ | ⟨w, T, payload, c, htask, htxn⟩ | ⟨w, c, -, htxn⟩
  · rw [htxn] at hstmt
    simp [Txn.statements, Stmt.event?] at hstmt
  · exact hrun.signal_sent hstmt (Sent e.workflowId)
  · intro hty
    rw [htxn] at hstmt
    simp only [Txn.statements, List.filterMap_append, List.mem_append] at hstmt
    rcases hstmt with h | h
    · simp [Stmt.event?] at h
    · obtain ⟨p, -, heq⟩ := mem_insertInto h
      rw [heq] at hty
      cases hty
  · intro hty
    rw [htxn] at hstmt
    simp only [Txn.statements, List.filterMap_append, List.mem_append] at hstmt
    rcases hstmt with h | h
    · obtain ⟨p, hp, heq⟩ := mem_insertInto h
      obtain rfl := Except.ok.inj hp
      have hT : Sent w T payload :=
        request_ok (P := fun r => ∀ w T payload, r = .sendSignal w T payload → Sent w T payload)
          (fun s r hl w T payload h => hsent s w T payload (h ▸ hl)) hr hth htask w T payload rfl
      have hw : e.workflowId = w := congrArg Entry.workflowId heq
      rw [hw]
      exact .inr (.inl ⟨T, payload, hT, by rw [heq]⟩)
    · simp [Stmt.event?] at h
  · rw [htxn] at hstmt
    simp [Txn.statements, Stmt.event?] at hstmt

theorem signal_sent {Sent : String → Json → Prop}
    (hsent : ∀ s w T payload, ok s (.request (.sendSignal w T payload)) → Sent T payload)
    (hs : Reachable d ok s) {e : EventRecord} (he : e ∈ s.events) : e.toEntry.SentAs Sent :=
  @signal_sent_to Val d s ok (fun _ => Sent) hsent hs e he

theorem signal_ok (hplain : ∀ s l, ok s l → l.plainSignal = true) (hs : Reachable d ok s)
    {e : EventRecord} (he : e ∈ s.events) : e.toEntry.SignalOk := by
  have hsent : e.toEntry.SentAs fun T _ => T ≠ childCompletedSignalType :=
    signal_sent (fun s w T payload hl => by simpa [Label.plainSignal] using hplain s _ hl) hs he
  exact hsent

end

/-! ## the SQL and the finders -/

theorem Wait.isAnswer_isSignal {wait : Wait} {e : EventRecord} (h : wait.isAnswer e = true) :
    e.isSignal = true := by
  cases wait with
  | signal T =>
    simp only [Wait.isAnswer, isReceivedSignal, Bool.and_eq_true] at h
    exact h.1.1
  | child c =>
    simp only [Wait.isAnswer, isChildResultSignal, Bool.and_eq_true] at h
    exact h.1.1

theorem EventRecord.isSignal_iff {e : EventRecord} :
    e.isSignal = true ↔ e.stepIndex = -1 ∧ e.eventType = .signal := by
  simp [EventRecord.isSignal]

/-- what a finder finds, the SQL finds -/
theorem answerMatches_of_isAnswer {render : Json → String} {e : EventRecord} (he : e.toEntry.Ok)
    {wait : Wait} (h : wait.isAnswer e = true) :
    answerMatches render e.workflowId wait e = true := by
  obtain ⟨-, hty⟩ := EventRecord.isSignal_iff.mp (Wait.isAnswer_isSignal h)
  cases wait with
  | signal T =>
    simp only [Wait.isAnswer, isReceivedSignal, Bool.and_eq_true, Bool.not_eq_true'] at h
    obtain ⟨⟨-, htype⟩, hstatus⟩ := h
    have hnone : Json.arrowText render (some e.payload) "status" ≠ some "waiting" := by
      unfold Entry.Ok at he
      rw [hty] at he
      rcases he.2 with ⟨wait, hp⟩ | ⟨T', p, hp⟩
      · rw [hp] at hstatus
        cases wait <;> simp [Wait.markerPayload, Json.getIs] at hstatus
      · rw [hp]
        simp [Json.arrowText, Json.arrow]
    simp [answerMatches, signalMatches, hty, Json.arrowText_of_getIs htype, hnone]
  | child c =>
    simp only [Wait.isAnswer, isChildResultSignal, Bool.and_eq_true] at h
    obtain ⟨⟨-, htype⟩, hchild⟩ := h
    cases hp : e.payload.get? "payload" with
    | none => rw [hp] at hchild; cases hchild
    | some p =>
      rw [hp] at hchild
      have harrow : Json.arrow (some e.payload) "payload" = some p := hp
      simp [answerMatches, completionMatches, hty, Json.arrowText_of_getIs htype, harrow,
        Json.arrowText_of_getIs hchild]

theorem Entry.SignalOk.sent {e : Entry} (h : e.SignalOk) : e.SentAs fun T p => tellsText T p = true :=
  fun hty => (h hty).imp_right fun h => h.imp_left fun ⟨T, p, hT, hp⟩ =>
    ⟨T, p, by simp [tellsText, hT], hp⟩

/-- what the SQL finds, the finder finds -/
theorem isAnswer_of_answerMatches {render : Json → String} {e : EventRecord} (he : e.toEntry.Ok)
    (hsig : e.toEntry.SentAs fun T p => tellsText T p = true) {w : String} {wait : Wait}
    (h : answerMatches render w wait e = true) : e.workflowId = w ∧ wait.isAnswer e = true := by
  have hty : e.workflowId = w ∧ e.eventType = .signal := by
    cases wait <;> simp only [answerMatches, signalMatches, completionMatches, Bool.and_eq_true,
      beq_iff_eq] at h <;> exact h.1.1
  obtain ⟨hw, hty⟩ := hty
  have hsignal : e.isSignal = true := by
    unfold Entry.Ok at he
    rw [hty] at he
    exact EventRecord.isSignal_iff.mpr ⟨he.1, hty⟩
  refine ⟨hw, ?_⟩
  rcases hsig hty with ⟨wait', hp⟩ | ⟨T', p, hT', hp⟩ | ⟨parent, cs, o, -, hp⟩
  · -- a marker is found by neither
    cases wait <;> cases wait' <;> simp [answerMatches, signalMatches, completionMatches, hp,
      Wait.markerPayload, Json.arrowText, Json.arrow] at h
  · cases wait with
    | signal T =>
      have hTT : T' = T := by
        simpa [answerMatches, signalMatches, hp, hw, hty, Json.arrowText, Json.arrow] using h
      simp [Wait.isAnswer, isReceivedSignal, hsignal, hp, Json.getIs, hTT]
    | child c =>
      have hmatch : T' = childCompletedSignalType
          ∧ Json.arrowText render (some p) "child_id" = some c := by
        simpa [answerMatches, completionMatches, hp, hw, hty, Json.arrowText, Json.arrow] using h
      obtain ⟨rfl, htext⟩ := hmatch
      -- the text is the string itself
      have hchild : p.getIs "child_id" c = true := by
        simp only [tellsText, bne_self_eq_false, Bool.false_or] at hT'
        unfold Json.arrowText Json.arrow at htext
        rw [Option.bind_some] at htext
        unfold Json.getIs
        cases hget : p.get? "child_id" with
        | none => simp [hget] at htext
        | some j =>
          rw [hget] at hT' htext
          cases j with
          | str text => simpa using htext
          | null => cases htext
          | _ => cases hT'
      simp [Wait.isAnswer, isChildResultSignal, hsignal, hp, Json.getIs]
      exact hchild
  · cases wait with
    | signal T =>
      have hTT : childCompletedSignalType = T := by
        simpa [answerMatches, signalMatches, hp, hw, hty, Json.arrowText, Json.arrow,
          childSignalPayload] using h
      simp [Wait.isAnswer, isReceivedSignal, hsignal, hp, Json.getIs, hTT, childSignalPayload]
    | child c =>
      have hc : parent.childId = c := by
        simpa [answerMatches, completionMatches, hp, hw, hty, Json.arrowText, Json.arrow,
          childSignalPayload] using h
      simp [Wait.isAnswer, isChildResultSignal, hsignal, hp, Json.getIs, hc, childSignalPayload]

end TemporalLight
