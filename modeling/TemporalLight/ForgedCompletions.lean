import TemporalLight.Engine

/-!
# Signals of the API and the waits for children

`wait_for_child` reads the log up to three times: the snapshot of its run, the `SELECT EXISTS` of
`mark_workflow_waiting_for_child`, and the fresh history.  `Reads.observe` is what it asks for and
how it ends, given these three.  `send_signal` accepts every signal type, the reserved one too, so
a signal may stand where a wait looks for the completion of a child.

* `genuine_iff`       the first completion in a list tells the same without the signals
* `signals_unseen`    when a wait ends the same without them
-/

namespace TemporalLight

/-- the log, at the three times a wait reads it -/
structure Reads where
  snapshot : List EventRecord
  checked : List EventRecord
  reloaded : List EventRecord

def Reads.all (log : Reads) : List EventRecord := log.snapshot ++ log.checked ++ log.reloaded

/-- the log without the events of these ids -/
def Reads.without (log : Reads) (sent : Nat → Bool) : Reads where
  snapshot := log.snapshot.filter fun e => !sent e.eventId
  checked := log.checked.filter fun e => !sent e.eventId
  reloaded := log.reloaded.filter fun e => !sent e.eventId

/-- the row `write_signal_and_wake_workflow` inserts -/
def signalEntry (workflowId signalType : String) (payload : Json) : Entry where
  workflowId := workflowId
  stepIndex := -1
  stepName := "signal"
  eventType := .signal
  payload := .obj [("signal_type", .str signalType), ("payload", payload)]

section
variable {Val : Type} {rt : Runtime Val} {ctx : WorkflowContext} {log : Reads}

/-- the replies to a wait; all but the reads of the log are those of `others` -/
def Reads.reply (rt : Runtime Val) (log : Reads) (others : (q : Call Val) → q.Reply) :
    (q : Call Val) → q.Reply
  | .loadEventHistory _ => log.reloaded
  | .transaction (.markWorkflowWaiting workflowId wait) =>
    .ok (!log.checked.any (answerMatches rt.jsonbText workflowId wait))
  | q => others q

/-- what `wait_for_child` asks for, and what it returns or raises -/
def Reads.observe (rt : Runtime Val) (log : Reads) (others : (q : Call Val) → q.Reply)
    (ctx : WorkflowContext) (childId : String) : List (Call Val) × Outcome Val :=
  (waitForChild rt { ctx with eventHistory := log.snapshot } childId).run.answered
    (log.reply rt others)

/-- the wait finds no completion in its snapshot, and its marker is there or gets there -/
def Reads.ComesToMark (log : Reads) (others : (q : Call Val) → q.Reply) (ctx : WorkflowContext)
    (childId : String) : Prop :=
  log.snapshot.find? (isChildResultSignal childId) = none
    ∧ (hasWaitingChildMarker log.snapshot childId = true ∨ ∃ written,
      others (.transaction (.insertEvent ctx.workflowId (-1) (Wait.child childId).markerName .signal
        (.ok (Wait.child childId).markerPayload))) = .ok written)

/-- the first completion of the child in the list is none of the signals, or the first genuine one
tells the same -/
def Genuine (rt : Runtime Val) (childId : String) (sent : Nat → Bool) (events : List EventRecord) :
    Prop :=
  ∀ e, events.find? (isChildResultSignal childId) = some e → sent e.eventId = true →
    ∃ e', (events.filter fun e => !sent e.eventId).find? (isChildResultSignal childId) = some e'
      ∧ childSignalResult rt e' = childSignalResult rt e

/-- no signal stands for a completion where the wait looks for one -/
structure Reads.Unforged (rt : Runtime Val) (log : Reads) (others : (q : Call Val) → q.Reply)
    (ctx : WorkflowContext) (childId : String) (sent : Nat → Bool) : Prop where
  snapshot : Genuine rt childId sent log.snapshot
  checked : log.ComesToMark others ctx childId →
    log.checked.any (completionMatches rt.jsonbText ctx.workflowId childId) = true →
      ∃ e ∈ log.checked, sent e.eventId = false
        ∧ completionMatches rt.jsonbText ctx.workflowId childId e = true
  reloaded : log.ComesToMark others ctx childId →
    log.checked.any (completionMatches rt.jsonbText ctx.workflowId childId) = true →
      Genuine rt childId sent log.reloaded

/-! ## one list -/

section
variable {childId : String} {sent : Nat → Bool} {events : List EventRecord}

def firstResult (rt : Runtime Val) (childId : String) (events : List EventRecord) :
    Option (Except PyExc Val) :=
  (events.find? (isChildResultSignal childId)).map (childSignalResult rt)

theorem find?_filter_of_kept {α : Type} {p q : α → Bool} {xs : List α} {x : α}
    (h : xs.find? p = some x) (hq : q x = true) : (xs.filter q).find? p = some x := by
  obtain ⟨hp, before, after, rfl, hbefore⟩ := List.find?_eq_some_iff_append.mp h
  rw [List.filter_append, List.filter_cons_of_pos hq, List.find?_append,
    List.find?_eq_none.mpr fun y hy => by
      simpa using hbefore y (List.mem_of_mem_filter hy), List.find?_cons_of_pos hp]
  rfl

theorem find?_filter_of_none {α : Type} {p q : α → Bool} {xs : List α} (h : xs.find? p = none) :
    (xs.filter q).find? p = none :=
  List.find?_eq_none.mpr fun x hx => List.find?_eq_none.mp h x (List.mem_of_mem_filter hx)

/-- **The list is genuine if and only if the wait finds the same in it without the signals.** -/
theorem genuine_iff : Genuine rt childId sent events
    ↔ firstResult rt childId events
      = firstResult rt childId (events.filter fun e => !sent e.eventId) := by
  unfold Genuine firstResult
  cases hfind : events.find? (isChildResultSignal childId) with
  | none =>
    rw [find?_filter_of_none hfind]
    exact iff_of_true (fun e he => by cases he) rfl
  | some e =>
    cases hsent : sent e.eventId with
    | false =>
      rw [find?_filter_of_kept hfind (by rw [hsent]; rfl)]
      refine iff_of_true (fun e' he' hsent' => ?_) rfl
      obtain rfl := Option.some.inj he'
      rw [hsent] at hsent'
      cases hsent'
    | true =>
      rw [Option.map_some, eq_comm, Option.map_eq_some_iff]
      refine ⟨fun h => h e rfl hsent, fun h e' he' _ => ?_⟩
      obtain rfl := Option.some.inj he'
      exact h

theorem any_without {p : EventRecord → Bool} : (events.filter fun e => !sent e.eventId).any p = true
    ↔ ∃ e ∈ events, sent e.eventId = false ∧ p e = true := by
  rw [List.any_eq_true]
  refine exists_congr fun e => ?_
  rw [List.mem_filter, Bool.not_eq_true', and_assoc]

end

/-! ## the whole wait -/

/-- the end of a wait, from the reply to the mark and from the fresh history -/
def endOfWait (rt : Runtime Val) (workflowId : String) (wait : Wait) (reloaded : List EventRecord) :
    Except PyExc Bool → List (Call Val) × Outcome Val
  | .error e => ([.transaction (wait.mark workflowId)], .error e)
  | .ok true =>
    ([.transaction (wait.mark workflowId)], .error (.workflowSuspended wait.suspensionText))
  | .ok false => ([.transaction (wait.mark workflowId), .loadEventHistory workflowId],
    match reloaded.find? wait.isAnswer with
    | some answer => wait.outcome rt answer
    | none => .error (.workflowSuspended wait.suspensionText))

/-- the end of a wait shows whether the mark was refused, and what was found then -/
theorem endOfWait_eq_iff {workflowId childId : String} {reloaded reloaded' : List EventRecord}
    {found found' : Bool} :
    endOfWait rt workflowId (.child childId) reloaded (.ok !found)
        = endOfWait rt workflowId (.child childId) reloaded' (.ok !found')
      ↔ found = found' ∧ (found = true →
        firstResult rt childId reloaded = firstResult rt childId reloaded') := by
  have hne (e : EventRecord) :
      childSignalResult rt e ≠ .error (.workflowSuspended (Wait.child childId).suspensionText) :=
    fun h => by
      obtain ⟨_, _, h⟩ := childSignalResult_error h
      cases h
  cases found <;> cases found'
  · exact iff_of_true rfl ⟨rfl, fun h => by cases h⟩
  · exact iff_of_false (fun h => by cases h) fun h => by cases h.1
  · exact iff_of_false (fun h => by cases h) fun h => by cases h.1
  · have hresult (events : List EventRecord) :
        endOfWait rt workflowId (.child childId) events (.ok !true)
          = ([.transaction ((Wait.child childId).mark workflowId), .loadEventHistory workflowId],
            (firstResult rt childId events).getD
              (.error (.workflowSuspended (Wait.child childId).suspensionText))) := by
      have hend : endOfWait rt workflowId (.child childId) events (.ok !true)
          = ([.transaction ((Wait.child childId).mark workflowId), .loadEventHistory workflowId],
            match events.find? (isChildResultSignal childId) with
            | some answer => childSignalResult rt answer
            | none => .error (.workflowSuspended (Wait.child childId).suspensionText)) := rfl
      rw [hend, firstResult]
      cases events.find? (isChildResultSignal childId) <;> rfl
    rw [hresult, hresult, Prod.mk.injEq, eq_self, eq_self, true_and, true_and, true_imp_iff]
    unfold firstResult
    cases reloaded.find? (isChildResultSignal childId) with
    | none =>
      cases reloaded'.find? (isChildResultSignal childId) with
      | none => exact iff_of_true rfl rfl
      | some e' => exact iff_of_false (fun h => hne e' h.symm) fun h => by cases h
    | some e =>
      cases reloaded'.find? (isChildResultSignal childId) with
      | none => exact iff_of_false (fun h => hne e h) fun h => by cases h
      | some e' => exact (Option.some.injEq _ _ ▸ Iff.rfl)

theorem answered_transaction (txn : Txn) (reply : (q : Call Val) → q.Reply) :
    (transaction txn : Engine Val Bool).run.answered reply
      = ([.transaction txn], reply (.transaction txn)) :=
  rfl

theorem answered_suspendUnlessAnswered (wait : Wait) (reply : (q : Call Val) → q.Reply) :
    (suspendUnlessAnswered rt ctx wait).run.answered reply
      = endOfWait rt ctx.workflowId wait (reply (.loadEventHistory ctx.workflowId))
        (reply (.transaction (wait.mark ctx.workflowId))) := by
  rw [suspendUnlessAnswered, Resumption.answered_run_bind, answered_transaction]
  cases reply (.transaction (wait.mark ctx.workflowId)) with
  | error e => rfl
  | ok marked =>
    cases marked with
    | true => rfl
    | false =>
      dsimp only [Resumption.andThen]
      have hload : (loadEventHistory ctx.workflowId : Engine Val _).run.answered reply
          = ([.loadEventHistory ctx.workflowId],
            .ok (reply (.loadEventHistory ctx.workflowId))) := rfl
      rw [if_pos (by rfl), Resumption.answered_run_bind, hload]
      show _ = ([_, _],
        match List.find? wait.isAnswer (reply (.loadEventHistory ctx.workflowId)) with
        | some answer => wait.outcome rt answer
        | none => .error (.workflowSuspended wait.suspensionText))
      dsimp only [Resumption.andThen]
      cases List.find? wait.isAnswer (reply (.loadEventHistory ctx.workflowId)) with
      | none => rfl
      | some answer =>
        cases wait.outcome rt answer <;> rfl

theorem answered_waitFor (wait : Wait) (reply : (q : Call Val) → q.Reply) :
    (waitFor rt ctx wait).run.answered reply
      = match ctx.eventHistory.find? wait.isAnswer with
        | some answer => ([], wait.outcome rt answer)
        | none =>
          if wait.hasMarker ctx.eventHistory then
            (suspendUnlessAnswered rt ctx wait).run.answered reply
          else
            Resumption.andThen ((writeEvent ctx.workflowId (-1) wait.markerName .signal
                (.ok wait.markerPayload) : Engine Val Unit).run.answered reply)
              fun _ => (suspendUnlessAnswered rt ctx wait).run.answered reply := by
  rw [waitFor]
  cases ctx.eventHistory.find? wait.isAnswer with
  | some answer => rfl
  | none =>
    dsimp only
    cases wait.hasMarker ctx.eventHistory with
    | true => rfl
    | false =>
      rw [if_pos (by rfl), if_neg Bool.false_ne_true]
      exact Resumption.answered_run_bind reply _ _

variable {others : (q : Call Val) → q.Reply} {childId : String} {sent : Nat → Bool}

/-- how the marker is written -/
def markerWrite (others : (q : Call Val) → q.Reply) (ctx : WorkflowContext) (childId : String) :
    List (Call Val) × Except PyExc Unit :=
  (writeEvent ctx.workflowId (-1) (Wait.child childId).markerName .signal
    (.ok (Wait.child childId).markerPayload) : Engine Val Unit).run.answered others

theorem markerWrite_andThen_ne {next : List (Call Val) × Outcome Val} :
    (Resumption.andThen (markerWrite others ctx childId) fun _ => next).1 ≠ [] := by
  rw [markerWrite, writeEvent, Resumption.answered_run_bind, answered_transaction]
  cases others (.transaction (.insertEvent ctx.workflowId (-1) (Wait.child childId).markerName
      .signal (.ok (Wait.child childId).markerPayload))) <;>
    exact List.cons_ne_nil _ _

theorem observe_found {e : EventRecord}
    (h : log.snapshot.find? (isChildResultSignal childId) = some e) :
    log.observe rt others ctx childId = ([], childSignalResult rt e) := by
  rw [Reads.observe, waitForChild, answered_waitFor]
  dsimp only [Wait.isAnswer]
  rw [h]
  rfl

theorem observe_missing (h : log.snapshot.find? (isChildResultSignal childId) = none) :
    log.observe rt others ctx childId
      = Resumption.andThen
          (if hasWaitingChildMarker log.snapshot childId then ([], .ok ())
            else markerWrite others ctx childId)
          fun _ => endOfWait rt ctx.workflowId (.child childId) log.reloaded
            (.ok !log.checked.any (completionMatches rt.jsonbText ctx.workflowId childId)) := by
  have hend : (suspendUnlessAnswered rt { ctx with eventHistory := log.snapshot }
      (.child childId)).run.answered (log.reply rt others)
      = endOfWait rt ctx.workflowId (.child childId) log.reloaded
        (.ok !log.checked.any (completionMatches rt.jsonbText ctx.workflowId childId)) :=
    answered_suspendUnlessAnswered (.child childId) (log.reply rt others)
  have hwrite : (writeEvent ctx.workflowId (-1) (Wait.child childId).markerName .signal
      (.ok (Wait.child childId).markerPayload) : Engine Val Unit).run.answered (log.reply rt others)
      = markerWrite others ctx childId := by
    rw [markerWrite, writeEvent, Resumption.answered_run_bind, Resumption.answered_run_bind]
    rfl
  rw [Reads.observe, waitForChild, answered_waitFor]
  dsimp only [Wait.isAnswer, Wait.hasMarker]
  rw [h, hend, hwrite]
  dsimp only
  by_cases hmarked : hasWaitingChildMarker log.snapshot childId = true
  · refine (if_pos hmarked).trans ?_
    rw [if_pos hmarked]
    rfl
  · refine (if_neg hmarked).trans ?_
    rw [if_neg hmarked]

theorem observe_missing_ne {result : Outcome Val}
    (h : log.snapshot.find? (isChildResultSignal childId) = none) :
    log.observe rt others ctx childId ≠ ([], result) := by
  rw [observe_missing h]
  intro hobserve
  have hasked := congrArg Prod.fst hobserve
  have hend : (endOfWait rt ctx.workflowId (.child childId) log.reloaded
      (.ok !log.checked.any (completionMatches rt.jsonbText ctx.workflowId childId))).1 ≠ [] := by
    cases log.checked.any (completionMatches rt.jsonbText ctx.workflowId childId) <;>
      exact List.cons_ne_nil _ _
  by_cases hmarked : hasWaitingChildMarker log.snapshot childId = true
  · rw [if_pos hmarked] at hasked
    exact hend hasked
  · rw [if_neg hmarked] at hasked
    exact markerWrite_andThen_ne hasked

/-- what comes after the marker shows if and only if the marker gets there -/
theorem andThen_marker {marked : Bool} {next next' : List (Call Val) × Outcome Val} :
    Resumption.andThen (if marked then ([], .ok ()) else markerWrite others ctx childId)
        (fun _ => next)
      = Resumption.andThen (if marked then ([], .ok ()) else markerWrite others ctx childId)
        (fun _ => next')
      ↔ ((marked = true ∨ ∃ written, others (.transaction (.insertEvent ctx.workflowId (-1)
          (Wait.child childId).markerName .signal (.ok (Wait.child childId).markerPayload)))
            = .ok written) → next = next') := by
  have hthen (asked : List (Call Val)) (next : List (Call Val) × Outcome Val) :
      Resumption.andThen (asked, (.ok () : Except PyExc Unit)) (fun _ => next)
        = (asked ++ next.1, next.2) := rfl
  have happend (asked : List (Call Val)) :
      ((asked ++ next.1, next.2) = (asked ++ next'.1, next'.2)) ↔ next = next' := by
    rw [Prod.mk.injEq, List.append_cancel_left_eq, Prod.ext_iff]
  cases marked with
  | true =>
    rw [if_pos rfl, hthen, hthen, happend]
    exact ⟨fun h _ => h, fun h => h (.inl rfl)⟩
  | false =>
    rw [if_neg Bool.false_ne_true, markerWrite, writeEvent, Resumption.answered_run_bind,
      answered_transaction]
    cases others (.transaction (.insertEvent ctx.workflowId (-1) (Wait.child childId).markerName
        .signal (.ok (Wait.child childId).markerPayload))) with
    | error e =>
      refine iff_of_true rfl ?_
      rintro (h | ⟨_, h⟩) <;> cases h
    | ok written =>
      refine Iff.trans (happend [_, .pgNotify ctx.workflowId]) ?_
      exact ⟨fun h _ => h, fun h => h (.inr ⟨written, rfl⟩)⟩

theorem signal_not_marker {e : EventRecord} {workflowId signalType : String} {payload : Json}
    (he : e.toEntry = signalEntry workflowId signalType payload) :
    isWaitingChildMarker childId e = false := by
  have hstatus : e.payload.getIs "status" "waiting" = false := by
    rw [show e.payload = _ from congrArg Entry.payload he]
    rfl
  rw [isWaitingChildMarker, hstatus, Bool.and_false, Bool.false_and]

/-- **The wait for a child ends the same with and without the signals of the API if and only if none
of them stands for a completion where the wait looks for one.** -/
theorem signals_unseen (hsent : ∀ e ∈ log.all, sent e.eventId = true →
      ∃ signalType payload, e.toEntry = signalEntry ctx.workflowId signalType payload) :
    log.observe rt others ctx childId = (log.without sent).observe rt others ctx childId
      ↔ log.Unforged rt others ctx childId sent := by
  have hmarker : hasWaitingChildMarker (log.without sent).snapshot childId
      = hasWaitingChildMarker log.snapshot childId := by
    rw [Bool.eq_iff_iff]
    refine any_without.trans ?_
    rw [hasWaitingChildMarker, List.any_eq_true]
    refine exists_congr fun e => and_congr_right fun he => and_iff_right_of_imp fun hmark => ?_
    rw [← Bool.not_eq_true]
    intro hsent'
    obtain ⟨signalType, payload, heq⟩ :=
      hsent e (List.mem_append_left _ (List.mem_append_left _ he)) hsent'
    rw [signal_not_marker heq] at hmark
    cases hmark
  have hcheck : (log.without sent).checked.any
        (completionMatches rt.jsonbText ctx.workflowId childId) = true →
      log.checked.any (completionMatches rt.jsonbText ctx.workflowId childId) = true := by
    intro h
    obtain ⟨e, he, -, hmatch⟩ := any_without.mp h
    exact List.any_eq_true.mpr ⟨e, he, hmatch⟩
  cases hfind : log.snapshot.find? (isChildResultSignal childId) with
  | some e =>
    have hcome : ¬log.ComesToMark others ctx childId := fun h => by
      rw [Reads.ComesToMark, hfind] at h
      cases h.1
    have hiff : log.observe rt others ctx childId = (log.without sent).observe rt others ctx childId
        ↔ Genuine rt childId sent log.snapshot := by
      have hgenuine : Genuine rt childId sent log.snapshot
          ↔ firstResult rt childId log.snapshot
            = firstResult rt childId (log.without sent).snapshot := genuine_iff
      rw [hgenuine, observe_found hfind, firstResult, firstResult, hfind]
      cases hfind' : (log.without sent).snapshot.find? (isChildResultSignal childId) with
      | some e' =>
        rw [observe_found hfind', Prod.mk.injEq, eq_self, true_and, Option.map_some,
          Option.map_some, Option.some.injEq]
      | none => exact iff_of_false (observe_missing_ne hfind').symm fun h => by cases h
    rw [hiff]
    exact ⟨fun h => ⟨h, fun hc => absurd hc hcome, fun hc => absurd hc hcome⟩, fun h => h.snapshot⟩
  | none =>
    have hfind' : (log.without sent).snapshot.find? (isChildResultSignal childId) = none :=
      find?_filter_of_none hfind
    rw [observe_missing hfind, observe_missing hfind', hmarker, andThen_marker]
    have hcome : log.ComesToMark others ctx childId ↔ _ := and_iff_right hfind
    rw [← hcome, endOfWait_eq_iff]
    have hsnapshot : Genuine rt childId sent log.snapshot := fun e he => by
      rw [hfind] at he
      cases he
    refine ⟨fun h => ⟨hsnapshot, fun hc hfound => ?_, fun hc hfound => ?_⟩, fun h hc => ⟨?_, ?_⟩⟩
    · exact any_without.mp ((h hc).1 ▸ hfound)
    · exact genuine_iff.mpr ((h hc).2 hfound)
    · rw [Bool.eq_iff_iff]
      exact ⟨fun hfound => any_without.mpr (h.checked hc hfound), hcheck⟩
    · exact fun hfound => genuine_iff.mp (h.reloaded hc hfound)

end

/-! ## a forged completion -/

/-- the replies of a system in which nothing is found and nothing fails -/
def quiet : (q : Call Json) → q.Reply
  | .loadEventHistory _ => []
  | .getWorkflow _ => none
  | .now => (0 : Int)
  | .runActivityBody _ _ _ _ => .error (.other "" "")
  | .pgNotify _ => ()
  | .transaction _ => .ok true

/-- `POST /signals` with the reserved type -/
def forgedSignal : String × Json :=
  (childCompletedSignalType,
    .obj [("child_id", .str "w:0"), ("status", .str "completed"), ("result", .int 7)])

/-- the log of `w` when the signal has arrived before the run -/
def forgedLog : Reads :=
  let e : EventRecord := ⟨signalEntry "w" forgedSignal.1 forgedSignal.2, 1, 0⟩
  ⟨[e], [e], [e]⟩

/-- the child has returned `3` before the signal arrived -/
def lateLog : Reads :=
  let genuine : EventRecord := ⟨signalEntry "w" childCompletedSignalType
    (.obj [("child_id", .str "w:0"), ("status", .str "completed"), ("result", .int 3)]), 1, 0⟩
  let forged : EventRecord := ⟨signalEntry "w" forgedSignal.1 forgedSignal.2, 2, 0⟩
  ⟨[genuine, forged], [genuine, forged], [genuine, forged]⟩

/-- `signals_unseen` for a signal that comes after the completion -/
theorem signals_unseen_late :
    lateLog.observe Runtime.plain quiet ⟨"w", [], none, 0⟩ "w:0"
        = (lateLog.without (· == 2)).observe Runtime.plain quiet ⟨"w", [], none, 0⟩ "w:0"
      ∧ lateLog.observe Runtime.plain quiet ⟨"w", [], none, 0⟩ "w:0" = ([], .ok (.int 3)) := by
  refine ⟨(signals_unseen fun e he hsent => ?_).mpr ⟨?_, ?_, ?_⟩, rfl⟩
  · simp only [Reads.all, lateLog, List.mem_append, List.mem_cons, List.not_mem_nil, or_false,
      or_self] at he
    obtain rfl | rfl := he
    · cases hsent
    · exact ⟨_, _, rfl⟩
  · intro e he hsent
    obtain rfl := Option.some.inj he
    cases hsent
  · exact fun h => by cases h.1
  · exact fun h => by cases h.1

/-- the parent goes on with a result that its child has never returned -/
theorem completion_forged :
    (∀ e ∈ forgedLog.all, e.toEntry = signalEntry "w" forgedSignal.1 forgedSignal.2)
      ∧ (forgedLog.observe Runtime.plain quiet ⟨"w", [], none, 0⟩ "w:0").2 = .ok (.int 7)
      ∧ ((forgedLog.without fun _ => true).observe Runtime.plain quiet ⟨"w", [], none, 0⟩ "w:0").2
        = .error (.workflowSuspended "Workflow waiting for child 'w:0'.") := by
  refine ⟨fun e he => ?_, rfl, rfl⟩
  simp only [Reads.all, forgedLog, List.mem_append, List.mem_singleton, or_self] at he
  rw [he]

end TemporalLight
