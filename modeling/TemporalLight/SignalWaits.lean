import TemporalLight.Stability
import TemporalLight.Steps

/-!
# Several waits for one signal

A received signal carries no mark of the wait that it has answered: `find_signal_event` returns the
first one of the log, for every call.  So the second `wait_for_signal` of a type is answered by the
signal that has answered the first.

* `wp_waitFor_delivers`   one wait, from the snapshot of its run
* `wait_delivers`         all waits of all runs
* `first_signal`          every wait for a signal delivers the first one
* `signal_answers_twice`  one signal answers two waits
-/

namespace TemporalLight
open Runs Resumption

section
variable {Val : Type} {rt : Runtime Val} {ctx : WorkflowContext} {wait : Wait} {L L' : Loaded}

variable (rt) in
/-- what a wait delivers to a run of `w` that has started from `snapshot`: the first answer in it; if
there is none, the first answer of a history read later, a suspension, or what the database raises
when it refuses the marker -/
def Wait.Delivers (w : String) (snapshot : List EventRecord) (wait : Wait) (outcome : Outcome Val)
    (loaded : Loaded) : Prop :=
  match snapshot.find? wait.isAnswer with
  | some answer => outcome = wait.outcome rt answer
  | none => (∃ history answer, (w, history) ∈ loaded ∧ history.find? wait.isAnswer = some answer
      ∧ outcome = wait.outcome rt answer)
    ∨ outcome = .error (.workflowSuspended wait.suspensionText)
    ∨ ∃ error, error.RefusesMarker ∧ outcome = .error error

theorem Wait.Delivers.mono {w : String} {snapshot : List EventRecord} {outcome : Outcome Val}
    (hL : L ⊆ L') (h : wait.Delivers rt w snapshot outcome L) :
    wait.Delivers rt w snapshot outcome L' := by
  unfold Wait.Delivers at h ⊢
  cases hfind : snapshot.find? wait.isAnswer with
  | some answer =>
    rw [hfind] at h
    exact h
  | none =>
    rw [hfind] at h
    exact h.imp_left fun ⟨history, answer, hmem, h⟩ => ⟨history, answer, hL hmem, h⟩

/-! ## one wait -/

variable (Val) in
/-- the replies are those of the database, whatever is asked -/
def replyRules : Rules (Call Val) Call.Reply Loaded := codeRules fun _ _ => True

theorem wp_suspendUnlessAnswered_delivers (hnone : ctx.eventHistory.find? wait.isAnswer = none) :
    wp (replyRules Val) (suspendUnlessAnswered rt ctx wait).run
      (wait.Delivers rt ctx.workflowId ctx.eventHistory) L := by
  have hdelivers : wait.Delivers rt ctx.workflowId ctx.eventHistory = _ :=
    funext fun outcome => funext fun loaded => by rw [Wait.Delivers, hnone]
  rw [hdelivers]
  unfold suspendUnlessAnswered
  rw [Wait.mark_eq]
  refine wp_run_bind (wp_code_call (fun _ _ => trivial) fun reply L₁ h₁ hans => ?_)
  intro L₂ h₂
  cases reply with
  | error error => exact absurd (hans error rfl) Txn.not_mayRaise_mark
  | ok markedWaiting =>
    cases markedWaiting with
    | true => exact fun L₃ _ => .inr (.inl rfl)
    | false =>
      refine wp_run_bind (wp_code_call (fun _ _ => trivial) fun history L₃ h₃ hans => ?_)
      intro L₄ h₄
      dsimp only
      split
      · rename_i answer hanswer
        exact fun L₅ h₅ => .inl ⟨history, answer, h₅ (h₄ hans), hanswer, rfl⟩
      · exact fun L₅ _ => .inr (.inl rfl)

/-- **A wait delivers the first answer of its snapshot, or of a later history.** -/
theorem wp_waitFor_delivers (L : Loaded) :
    wp (replyRules Val) (waitFor rt ctx wait).run
      (wait.Delivers rt ctx.workflowId ctx.eventHistory) L := by
  unfold waitFor
  cases hfind : ctx.eventHistory.find? wait.isAnswer with
  | some answer =>
    intro L' _
    show Wait.Delivers rt ctx.workflowId ctx.eventHistory wait (wait.outcome rt answer) L'
    rw [Wait.Delivers, hfind]
  | none =>
    dsimp only
    split
    · refine wp_run_bind (wp_run_bind (wp_code_call (fun _ _ => trivial) fun reply L₁ _ hans => ?_))
      intro L₂ _
      cases reply with
      | error error =>
        intro L₃ _ L₄ _
        show Wait.Delivers rt ctx.workflowId ctx.eventHistory wait _ L₄
        rw [Wait.Delivers, hfind]
        exact .inr (.inr ⟨error, Txn.refusesMarker (hans error rfl), rfl⟩)
      | ok b =>
        refine wp_code_call (fun _ _ => trivial) fun _ L₃ _ _ => ?_
        intro L₄ _
        exact wp_suspendUnlessAnswered_delivers hfind
    · exact wp_suspendUnlessAnswered_delivers hfind

/-! ## all waits -/

variable (rt) in
/-- the waits of the run deliver what they should, those that have ended and the current one -/
structure Run.WaitsOk (r : Run Val) (loaded : Loaded) : Prop where
  current : ∀ c wait, r.code = .stepping c → (r.program r.delivered).wait? = some wait →
    wp (replyRules Val) c.run (wait.Delivers rt r.context.workflowId r.context.eventHistory) loaded
  delivered : ∀ i outcome wait, r.delivered[i]? = some outcome →
    (r.program (r.delivered.take i)).wait? = some wait →
    wait.Delivers rt r.context.workflowId r.context.eventHistory outcome loaded

theorem Run.WaitsOk.mono {r : Run Val} (hL : L ⊆ L') (h : r.WaitsOk rt L) : r.WaitsOk rt L' where
  current c wait hc hwait := wp_rely (ρ := replyRules Val) hL (h.current c wait hc hwait)
  delivered i outcome wait hi hwait := (h.delivered i outcome wait hi hwait).mono hL

theorem Run.waitsOk_resume {r : Run Val}
    (h : ∀ i outcome wait, r.delivered[i]? = some outcome →
      (r.program (r.delivered.take i)).wait? = some wait →
      wait.Delivers rt r.context.workflowId r.context.eventHistory outcome L) :
    (r.resume rt).WaitsOk rt L := by
  unfold Run.resume
  dsimp only
  split
  · exact ⟨nofun, h⟩
  · refine ⟨fun c wait hc hwait => ?_, h⟩
    obtain rfl := Code.stepping.inj hc
    rw [executeStep_of_wait? hwait]
    exact wp_waitFor_delivers L

theorem Run.WaitsOk.snoc {r : Run Val} {c : Engine Val Val} {outcome : Outcome Val}
    (h : r.WaitsOk rt L) (hc : r.code = .stepping c) (hval : c.run = .pure outcome) (i : Nat)
    (o : Outcome Val) (wait : Wait) (hi : (r.delivered ++ [outcome])[i]? = some o)
    (hwait : (r.program ((r.delivered ++ [outcome]).take i)).wait? = some wait) :
    wait.Delivers rt r.context.workflowId r.context.eventHistory o L := by
  rcases Nat.lt_trichotomy i r.delivered.length with hlt | rfl | hlt
  · rw [List.getElem?_append_left hlt] at hi
    rw [List.take_append_of_le_length (le_of_lt hlt)] at hwait
    exact h.delivered i o wait hi hwait
  · rw [List.getElem?_concat_length] at hi
    rw [List.take_left] at hwait
    have hwp := h.current c wait hc hwait
    rw [hval] at hwp
    exact Option.some.inj hi ▸ wp_value hwp
  · rw [List.getElem?_eq_none (by simp; omega)] at hi
    cases hi

variable {d : Deployment Val} {s : Sys Val} {ok : Sys Val → Label Val → Prop}

/-- **Every wait of every run delivers the first answer, of its snapshot or of a later history.** -/
theorem wait_delivers (hs : Reachable d ok s) {t : Nat} {r : Run Val} (hr : s.run? t = some r) :
    r.WaitsOk d.toRuntime s.loaded := by
  obtain ⟨past, htrace⟩ := hs.exists_trace
  refine run_invariant (I := fun _ s _ r => r.WaitsOk d.toRuntime s.loaded)
    ?_ ?_ ?_ ?_ ?_ htrace hr
  · intro t r hr
    rw [Sys.initial_run?] at hr
    cases hr
  · intro _ _ _ _ _ worker row _ _ _ _ _ _ _
    exact ⟨nofun, nofun⟩
  · intro _ _ _ _ _ _ _ _ hstep _ _ h
    exact h.mono hstep.loaded_subset
  · intro _ s l s' t r tx n reply htrace _ hstep hth hn hans h
    have hanswered : n.1.Answered s'.loaded reply := by
      refine hans.answered htrace.reach hth (k := fun reply => .run (n.2 reply)) ?_
      show r.next?.map _ = _
      rw [hn]
      rfl
    refine ⟨fun c wait hc hwait => ?_, ?_⟩
    · -- the reply goes to the current await
      unfold Run.next? at hn
      cases hcode : r.code with
      | stepping c₀ =>
        rw [hcode] at hn
        obtain ⟨m, hm, rfl⟩ := Option.map_eq_some_iff.mp hn
        obtain rfl := Code.stepping.inj hc
        have hwp := h.current c₀ wait hcode hwait
        rw [Resumption.pending?_eq_some hm] at hwp
        exact (wp_answer hwp ⟨hstep.loaded_subset, hanswered⟩).2
      | ended =>
        rw [hcode] at hn
        cases hn
      | _ =>
        rw [hcode] at hn
        obtain ⟨m, -, rfl⟩ := Option.map_eq_some_iff.mp hn
        cases hc
    · obtain ⟨code, hcode⟩ := Run.next?_code hn reply
      rw [hcode]
      exact (h.mono hstep.loaded_subset).delivered
  · intro _ s s' t r r' _ _ hstep _ hadv h
    refine Run.WaitsOk.mono hstep.loaded_subset ?_
    rcases Run.advance_cases hadv with ⟨_, _, _, -, -, rfl⟩ | ⟨c, outcome, hc, hval, rfl⟩ | ⟨rfl, -⟩
    · exact Run.waitsOk_resume nofun
    · exact Run.waitsOk_resume fun i o wait hi hwait => h.snoc hc hval i o wait hi hwait
    · exact ⟨nofun, h.delivered⟩

theorem mem_of_delivers {history : List EventRecord} {signalType : String} {first : EventRecord}
    {w : String} (hs : Reachable d ok s) (hl : (w, history) ∈ s.loaded)
    (hfirst : history.find? (isReceivedSignal signalType) = some first) :
    first ∈ s.history w ∧ isReceivedSignal signalType first = true :=
  ⟨mem_events_of_loaded hs hl (List.mem_of_find?_eq_some hfirst), List.find?_some hfirst⟩

/-- **Every call of `wait_for_signal`, whichever its number, returns the payload of the first
received signal of its type**, in the snapshot of its run or, if there is none, in a history read
later; without a received signal in the log it suspends, unless the database refuses its marker. -/
theorem first_signal (hs : Reachable d ok s) {t : Nat} {r : Run Val} (hr : s.run? t = some r)
    {i : Nat} {outcome : Outcome Val} {signalType : String} (hi : r.delivered[i]? = some outcome)
    (hcall : r.program (r.delivered.take i) = .waitForSignal signalType) :
    let received := isReceivedSignal signalType
    let suspended := outcome
        = .error (.workflowSuspended ("Workflow waiting for signal '" ++ signalType ++ "'."))
      ∨ ∃ error, error.RefusesMarker ∧ outcome = .error error
    (r.workflowId, r.context.eventHistory) ∈ s.loaded
    ∧ (∀ first, r.context.eventHistory.find? received = some first →
      outcome = .ok (signalPayload d.toRuntime first))
    ∧ (r.context.eventHistory.find? received = none →
      (∃ history first, (r.workflowId, history) ∈ s.loaded ∧ history.find? received = some first
        ∧ outcome = .ok (signalPayload d.toRuntime first)) ∨ suspended)
    ∧ ((s.history r.workflowId).find? received = none → suspended) := by
  intro received suspended
  obtain ⟨tx, alive, hth⟩ := Sys.thread_of_run? hr
  have hrun : r.Ok d.toRuntime (d.workflowRegistry t) s.loaded := task_ok hs hth
  have hstarted := hrun.started (List.ne_nil_of_length_pos
    (lt_of_le_of_lt (Nat.zero_le i) (List.getElem?_eq_some_iff.mp hi).1))
  have hdel := (wait_delivers hs hr).delivered i outcome (.signal signalType) hi (by rw [hcall]; rfl)
  rw [hstarted.workflowId] at hdel
  unfold Wait.Delivers at hdel
  have hfirst : ∀ first, r.context.eventHistory.find? received = some first →
      outcome = .ok (signalPayload d.toRuntime first) := by
    intro first hfind
    rw [show r.context.eventHistory.find? (Wait.signal signalType).isAnswer = some first from hfind]
      at hdel
    exact hdel
  have hlater : r.context.eventHistory.find? received = none →
      (∃ history first, (r.workflowId, history) ∈ s.loaded ∧ history.find? received = some first
        ∧ outcome = .ok (signalPayload d.toRuntime first)) ∨ suspended := by
    intro hfind
    rw [show r.context.eventHistory.find? (Wait.signal signalType).isAnswer = none from hfind]
      at hdel
    exact hdel
  refine ⟨hstarted.history, hfirst, hlater, fun hnone => ?_⟩
  have hno : ∀ history first, (r.workflowId, history) ∈ s.loaded →
      history.find? received ≠ some first := by
    intro history first hl hfind
    obtain ⟨hmem, htest⟩ := mem_of_delivers hs hl hfind
    exact absurd htest (List.find?_eq_none.mp hnone first hmem)
  cases hfind : r.context.eventHistory.find? received with
  | some first => exact absurd hfind (hno _ first hstarted.history)
  | none =>
    refine (hlater hfind).resolve_left fun h => ?_
    obtain ⟨history, first, hl, hread, -⟩ := h
    exact hno history first hl hread

end

/-! ## two waits, one signal -/

def waitsTwice : Deployment Json :=
  .plain fun _ => some fun _ delivered =>
    match delivered with
    | [] => .waitForSignal "go"
    | [.ok _] => .waitForSignal "go"
    | _ => .ret (.ok .null)

/-- one signal is sent before the workflow is claimed, and its run comes to its end -/
def oneSignal : List (Label Json) :=
  [.request (.startWorkflow .w "n" (.obj []))] ++ transact 0 3
    ++ [.request (.sendSignal "w" "go" (.int 5)), .read 1] ++ transact 1 4
    ++ [.claim "A" (newRow "w" "n" none 0)] ++ transact 2 2
    ++ [.read 2, .advance 2, .advance 2, .advance 2]

/-- the run has been in two waits for the signal, and both have delivered this number -/
def Run.receivedTwice (r : Run Json) (n : Int) : Bool :=
  match r.delivered with
  | [.ok (.int m), .ok (.int m')] => m == n && m' == n
      && (r.program []).wait? == some (.signal "go")
      && (r.program (r.delivered.take 1)).wait? == some (.signal "go")
  | _ => false

theorem Action.eq_waitForSignal {action : Action Json} {signalType : String}
    (h : (action.wait? == some (.signal signalType)) = true) :
    action = .waitForSignal signalType := by
  rw [beq_iff_eq] at h
  cases action <;> cases h
  rfl

theorem Run.receivedTwice_spec {r : Run Json} {n : Int} (h : r.receivedTwice n = true) :
    r.delivered = [.ok (.int n), .ok (.int n)] ∧ r.program [] = .waitForSignal "go"
      ∧ r.program [.ok (.int n)] = .waitForSignal "go" := by
  unfold Run.receivedTwice at h
  split at h
  · rename_i m m' hdel
    simp only [Bool.and_eq_true] at h
    obtain ⟨⟨⟨hm, hm'⟩, hcall⟩, hcall'⟩ := h
    obtain rfl := beq_iff_eq.mp hm
    obtain rfl := beq_iff_eq.mp hm'
    rw [hdel] at hcall'
    exact ⟨hdel, Action.eq_waitForSignal hcall, Action.eq_waitForSignal hcall'⟩
  · cases h

def Sys.answeredTwice (s : Sys Json) : Bool :=
  (s.run? 2).any (fun r => r.receivedTwice 5 && r.workflowId == "w")
    && (s.history "w").countP (isReceivedSignal "go") == 1

/-- the second wait of a run, answered by the first signal -/
theorem first_signal_second : ∃ (s : Sys Json) (r : Run Json), s.run? 2 = some r
    ∧ r.receivedTwice 5 = true
    ∧ ∀ first, r.context.eventHistory.find? (isReceivedSignal "go") = some first →
      (.ok (.int 5) : Outcome Json) = .ok (signalPayload Runtime.plain first) := by
  have hrun : (follow (Sys.step waitsTwice) (fun _ _ => true) Sys.initial oneSignal).any
      Sys.answeredTwice = true := by
    decide +kernel
  obtain ⟨s, hs, h⟩ := Reach.exists_of_follow _ hrun
  obtain ⟨r, hr, h⟩ := (Option.any_eq_true _ _).mp (Bool.and_eq_true_iff.mp h).1
  obtain ⟨hreceived, -⟩ := Bool.and_eq_true_iff.mp h
  obtain ⟨hdel, -, hcall⟩ := Run.receivedTwice_spec hreceived
  refine ⟨s, r, hr, hreceived, ?_⟩
  exact (first_signal hs hr (i := 1) (by rw [hdel]; rfl) (by rw [hdel]; exact hcall)).2.1

/-- One signal answers both waits of the workflow: the second one returns its payload, although only
one signal has been received. -/
theorem signal_answers_twice : ∃ (s : Sys Json) (r : Run Json),
    Reachable waitsTwice (fun _ _ => true) s ∧ s.run? 2 = some r ∧ r.workflowId = "w"
    ∧ r.program [] = .waitForSignal "go" ∧ r.program [.ok (.int 5)] = .waitForSignal "go"
    ∧ r.delivered = [.ok (.int 5), .ok (.int 5)]
    ∧ (s.history "w").countP (isReceivedSignal "go") = 1 := by
  have hrun : (follow (Sys.step waitsTwice) (fun _ _ => true) Sys.initial oneSignal).any
      Sys.answeredTwice = true := by
    decide +kernel
  obtain ⟨s, hs, h⟩ := Reach.exists_of_follow _ hrun
  obtain ⟨h, hcount⟩ := Bool.and_eq_true_iff.mp h
  obtain ⟨r, hr, h⟩ := (Option.any_eq_true _ _).mp h
  obtain ⟨hreceived, hw⟩ := Bool.and_eq_true_iff.mp h
  obtain ⟨hdel, hcall, hcall'⟩ := Run.receivedTwice_spec hreceived
  exact ⟨s, r, hs, hr, beq_iff_eq.mp hw, hcall, hcall', hdel, beq_iff_eq.mp hcount⟩

end TemporalLight
