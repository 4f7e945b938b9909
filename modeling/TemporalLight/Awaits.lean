import TemporalLight.Position

/-!
# The awaits, one step each

An await at a position delivers the value of the block that comes next, or writes a block at the
end of the log and delivers its value, or raises.

* `ends_executeActivity`, `ends_sleep`, `ends_spawnChild`, `ends_waitFor`
* `ends_executeStep`   an await moves the position by one step, or raises
* `ends_startRun`      a run starts at the beginning of the log
* `ends_finishRun`     it ends with the value of an uninterrupted pass
-/

namespace TemporalLight
open Resumption

section
variable {Val α β : Type} {W : Replayable Val} {ctx : WorkflowContext} {vs : List Val}
  {done rest : List Entry} {V V' : View Val}

variable (W ctx vs) in
/-- one step more has delivered its value -/
def Delivered (v : Val) (V : View Val) : Prop :=
  ∃ done rest, Position W ctx (vs ++ [v]) done rest V ∧ Snapshot ctx done rest

theorem Delivered.same {v : Val} (h : Delivered W ctx vs v V) (hV : V.held → V.Same W V') :
    Delivered W ctx vs v V' := by
  obtain ⟨done, rest, hpos, hsnap⟩ := h
  exact ⟨done, rest, hpos.same (hV hpos.held), hsnap⟩

theorem Position.delivered {b l : List Entry} {v : Val} (h : Position W ctx vs done (b ++ l) V)
    (hsnap : Snapshot ctx done (b ++ l)) (hb : Leaves W V.read vs b v)
    (hl : (W.grammar V.read).Rest (vs ++ [v]) l) : Delivered W ctx vs v V :=
  ⟨done ++ b, l, h.advance hb hl, hsnap.advance⟩

theorem Position.wrote {b : List Entry} {v : Val} (h : Position W ctx vs done (rest ++ b) V)
    (hsnap : stepEntries ctx.eventHistory <+: done ++ rest) (hb : Leaves W V.read vs (rest ++ b) v) :
    Delivered W ctx vs v V := by
  refine ⟨done ++ (rest ++ b), [], ?_, .inl ⟨rfl, ?_⟩⟩
  · rw [← List.append_nil (rest ++ b)] at h
    exact h.advance hb (.nil _)
  · rw [← List.append_assoc]
    exact hsnap.trans (List.prefix_append _ b)

theorem ends_replayed {b l : List Entry} {v : Val} (h : Position W ctx vs done (b ++ l) V)
    (hsnap : Snapshot ctx done (b ++ l)) (hb : Leaves W V.read vs b v)
    (hl : (W.grammar V.read).Rest (vs ++ [v]) l) :
    Ends W (pure v) (Delivered W ctx vs) V :=
  Ends.pure fun _ hV =>
    have hsame := hV h.held
    (h.same hsame).delivered hsnap (Leaves.mono hsame.read hb) (Replayable.rest_mono hsame.read hl)

theorem filter_isStep (w : String) (i : Nat) (n : String) (ty : EventType) (p : Json) :
    [(⟨w, i, n, ty, p⟩ : Entry)].filter Entry.isStep = [⟨w, i, n, ty, p⟩] := by
  simp [Entry.isStep]

section activity
variable {f : ActivityFunction Val} {input : Json} {sched : Entry} {fails : List Entry} {k : Nat}
  (hP : W.program.next vs = .activity f (.ok (.json input)))
  (hsched : IsScheduled vs.length f input sched) (hfails : Attempts vs.length k fails)
include hP hsched hfails

theorem ends_handleActivityFailure (hpos : Position W ctx vs done (sched :: fails) V)
    (error : PyExc) (duration : Int) :
    Ends W (handleActivityFailure W.rt ctx vs.length f k error duration) (fun _ _ => True) V := by
  unfold handleActivityFailure
  refine (ends_result hpos.held _).bind fun errorMessage V₀ ⟨_, hV₀⟩ => ?_
  refine (ends_writeEvent (hpos.same hV₀) fun p R hp _ => ?_).bind fun _ V₁ ⟨p, hp, h₁⟩ => ?_
  · obtain rfl := Except.ok.inj hp
    rw [filter_isStep]
    exact .opened (.activity hP hsched (hfails.snoc ⟨Entry.isAt_iff.mpr ⟨rfl, rfl⟩, rfl⟩))
  show Ends W (if _ then _ else _) _ V₁
  split
  · refine (ends_now h₁.held).bind fun time V₂ hV₂ => ?_
    have h₂ := h₁.same hV₂
    refine (ends_result h₂.held _).bind fun retryAt V₃ ⟨_, hV₃⟩ => ?_
    have h₃ := h₂.same hV₃
    refine (ends_release h₃.held rfl fun V' h => ⟨h.held h₃.held, trivial⟩).bind fun _ V₄ _ => ?_
    exact Ends.pure fun _ _ => trivial
  · refine (ends_release h₁.held rfl fun V' h => ⟨h.held h₁.held, trivial⟩).bind fun _ V₃ _ => ?_
    exact Ends.pure fun _ _ => trivial

theorem ends_runAttempt (hpos : Position W ctx vs done (sched :: fails) V)
    (hsnap : stepEntries ctx.eventHistory <+: done ++ sched :: fails)
    (hcount : ctx.countFailedEvents vs.length = k) :
    Ends W (runAttempt W.rt ctx vs.length f (.json input)) (Delivered W ctx vs) V := by
  unfold runAttempt
  rw [hcount]
  refine (ends_now hpos.held).bind fun startedAt V₁ hV₁ => ?_
  have h₁ := hpos.same hV₁
  have hbody : Ends W (runActivityBody ctx.workflowId vs.length f (.json input)) (fun r V' =>
      Position W ctx vs done (sched :: fails) V' ∧ ∀ v, r = .ok v → W.yields f (.json input) v)
      V₁ := by
    refine Ends.same h₁.held (fun V' h => ⟨h.held h₁.held, fun e he => ?_⟩)
      (fun _ _ _ h => h.1) fun _ _ _ _ hans _ _ h => ⟨h₁.same h, hans.2⟩
    -- the step has no COMPLETED event
    rw [(h₁.same h).steps] at he
    rcases List.mem_append.mp he with he | he
    · cases hat : e.isAt vs.length .completed with
      | false => rfl
      | true =>
        have := h₁.done.index_lt e he
        rw [show (W.grammar V₁.read).index e = vs.length from (Entry.isAt_iff.mp hat).1] at this
        omega
    · exact hfails.not_completed hsched e he
  refine hbody.bind fun r V₂ ⟨h₂, hyield⟩ => ?_
  cases r with
  | error executionError =>
    show Ends W (if _ then _ else _) _ V₂
    split
    · refine (ends_now h₂.held).bind fun endedAt V₃ hV₃ => ?_
      refine (ends_handleActivityFailure hP hsched hfails (h₂.same hV₃) _ _).bind fun _ V₄ _ => ?_
      exact Ends.raise nofun
    · exact Ends.raise fun _ => h₂.held
  | ok v =>
    refine (ends_now h₂.held).bind fun endedAt V₃ hV₃ => ?_
    have h₃ := h₂.same hV₃
    have hblock : ∀ p, ((W.rt.dumps v).map fun serializedResult => Json.obj
        [("result", serializedResult), ("duration_seconds", durationSeconds (endedAt - startedAt)),
          ("attempts_total", .int (k + 1))]) = .ok p → ∀ R, Leaves W R vs
        (sched :: (fails ++ [⟨W.workflowId, vs.length, f.qualname, .completed, p⟩])) v := by
      intro p hp R
      cases hd : W.rt.dumps v with
      | error e =>
        rw [hd] at hp
        cases hp
      | ok result =>
        rw [hd] at hp
        obtain rfl := Except.ok.inj hp
        exact .activity hP hsched hfails ⟨Entry.isAt_iff.mpr ⟨rfl, rfl⟩, rfl, rfl⟩
          (W.plain f _ v (hyield v rfl) result hd) (hyield v rfl)
    refine (ends_writeEvent h₃ fun p R hp _ => ?_).bind fun _ V₄ ⟨p, hp, h₄⟩ => ?_
    · rw [filter_isStep, ← List.append_nil (sched :: fails ++ _)]
      exact .block (hblock p hp R) (.nil _)
    · rw [filter_isStep] at h₄
      exact Ends.pure fun V₅ hV =>
        have h₅ := h₄.same (hV h₄.held)
        h₅.wrote hsnap (hblock p hp _)

end activity

theorem ends_executeActivity (hpos : Position W ctx vs done rest V) (hsnap : Snapshot ctx done rest)
    (hcount : ctx.stepCounter = vs.length) {f : ActivityFunction Val}
    {args : Except PyExc JsonSafe} (hP : W.program.next vs = .activity f args) :
    Ends W (executeActivity W.rt ctx f args) (Delivered W ctx vs) V := by
  have hcompleted : (ctx.findCompletedEvent vs.length).map _ = _ := hsnap.find? hpos .completed
  have hscheduled : (ctx.findScheduledEvent vs.length).map _ = _ := hsnap.find? hpos .scheduled
  have hfailed := hsnap.countFailed hpos
  have hpre := hsnap.prefix
  unfold executeActivity
  rw [show ctx.nextStepIndex.1 = vs.length from hcount]
  dsimp only
  have hrest := hpos.rest
  cases hrest with
  | nil =>
    rw [Option.map_eq_none_iff.mp hcompleted]
    dsimp only
    refine (ends_result hpos.held args).bind fun arguments V₀ ⟨hargs, hV₀⟩ => ?_
    obtain rfl := hargs
    rw [Option.map_eq_none_iff.mp hscheduled]
    have hopen : ∀ p, (arguments.dumps.map fun input => Json.obj
        [("step_name", .str f.qualname), ("input", input)]) = .ok p → ∃ input,
          arguments = .json input
          ∧ IsScheduled vs.length f input ⟨W.workflowId, vs.length, f.qualname, .scheduled, p⟩ := by
      intro p hp
      cases arguments with
      | refused => cases hp
      | json input =>
        obtain rfl := Except.ok.inj hp
        exact ⟨input, rfl, Entry.isAt_iff.mpr ⟨rfl, rfl⟩, rfl, rfl⟩
    refine (ends_writeEvent (hpos.same hV₀) fun p R hp _ => ?_).bind fun _ V₁ ⟨p, hp, h₁⟩ => ?_
    · obtain ⟨input, rfl, hsched⟩ := hopen p hp
      rw [filter_isStep]
      exact .opened (.activity hP hsched .nil)
    · obtain ⟨input, rfl, hsched⟩ := hopen p hp
      rw [filter_isStep] at h₁
      rw [List.append_nil] at hpre
      exact ends_runAttempt hP hsched .nil h₁ (hpre.trans (List.prefix_append _ _)) hfailed
  | opened ho =>
    -- scheduled before, and perhaps failed
    cases ho with
    | @activity f' input sched fails k hP' hsched hfails =>
      obtain ⟨rfl, rfl⟩ := Action.activity.inj (hP.symm.trans hP')
      have hnone : (sched :: fails).find? (Entry.isAt vs.length .completed) = none :=
        List.find?_eq_none.mpr fun e he => by simp [hfails.not_completed hsched e he]
      rw [Option.map_eq_none_iff.mp (hcompleted.trans hnone)]
      rw [List.find?_cons_of_pos hsched.isAt] at hscheduled
      obtain ⟨event, hevent, heq⟩ := Option.map_eq_some_iff.mp hscheduled
      dsimp only
      refine (ends_result hpos.held _).bind fun arguments V₀ ⟨hargs, hV₀⟩ => ?_
      obtain rfl := Except.ok.inj hargs
      have h₀ := hpos.same hV₀
      rw [hevent]
      have hcheck : checkScheduled W.rt vs.length f (.json input) event = .ok () := by
        have hpayload : event.payload = sched.payload := congrArg Entry.payload heq
        rw [checkScheduled, hpayload, getItem_of_get? hsched.stepName]
        simp [hsched.input, JsonSafe.differs, Json.pyEq_refl]
      have hk : ctx.countFailedEvents vs.length = k := by
        rw [hfailed, List.countP_cons_of_neg, List.countP_eq_length.mpr fun e he => hfails.isAt e he,
          hfails.length]
        rw [Entry.isAt_iff, (Entry.isAt_iff.mp hsched.isAt).2]
        exact nofun
      refine Ends.bind (Q := fun _ V' => Position W ctx vs done (sched :: fails) V') ?_
        fun _ V₁ h₁ => ends_runAttempt hP hsched hfails h₁ hpre hk
      rw [hcheck]
      exact Ends.pure fun V' hV => h₀.same (hV h₀.held)
  | @block _ l b v hb hl =>
    -- completed before
    have hb' : Leaves W V.read vs b v := hb
    cases hb' with
    | @activity f' input result sched e fails k _ hP' hsched hfails he hv hyield =>
      obtain ⟨rfl, rfl⟩ := Action.activity.inj (hP.symm.trans hP')
      have hfind : (sched :: (fails ++ [e]) ++ l).find? (Entry.isAt vs.length .completed)
          = some e := by
        rw [show sched :: (fails ++ [e]) ++ l = (sched :: fails) ++ e :: l by simp,
          List.find?_append, List.find?_eq_none.mpr fun a ha => by
            simp [hfails.not_completed hsched a ha]]
        simp [he.isAt]
      obtain ⟨event, hevent, heq⟩ := Option.map_eq_some_iff.mp (hcompleted.trans hfind)
      rw [hevent]
      have hvalue : getItem event.payload "result" >>= f.fromJsonSafe = .ok v := by
        rw [show event.payload = e.payload from congrArg Entry.payload heq,
          getItem_of_get? he.result]
        exact hv
      show Ends W (ExceptT.mk (.pure (getItem _ _ >>= f.fromJsonSafe))) _ V
      rw [hvalue]
      exact ends_replayed hpos hsnap hb hl
    | sleep hP' _ => cases hP.symm.trans hP'
    | spawnChild hP' _ => cases hP.symm.trans hP'
    | wait hP' _ =>
      rw [hP] at hP'
      cases hP'

/-! ## sleep -/

theorem ends_sleep (hpos : Position W ctx vs done rest V) (hsnap : Snapshot ctx done rest)
    (hcount : ctx.stepCounter = vs.length) {seconds minutes hours days : ℚ}
    (hP : W.program.next vs = .sleep seconds minutes hours days) :
    Ends W (sleep W.rt ctx seconds minutes hours days) (Delivered W ctx vs) V := by
  have hfound := hsnap.find? hpos .sleep
  have hpre := hsnap.prefix
  unfold sleep
  rw [show ctx.nextStepIndex.1 = vs.length from hcount]
  dsimp only
  have hrest := hpos.rest
  cases hrest with
  | nil =>
    rw [Option.map_eq_none_iff.mp hfound]
    refine (ends_now hpos.held).bind fun time V₀ hV₀ => ?_
    have h₀ := hpos.same hV₀
    refine (ends_result h₀.held _).bind fun wakeupAt V₁ ⟨_, hV₁⟩ => ?_
    refine (ends_writeEvent (h₀.same hV₁) fun p R hp _ => ?_).bind fun _ V₂ ⟨p, hp, h₂⟩ => ?_
    · rw [filter_isStep, List.nil_append, ← List.append_nil [_]]
      exact .block (Leaves.sleep hP (Entry.isAt_iff.mpr ⟨rfl, rfl⟩)) (.nil _)
    refine (ends_release h₂.held rfl fun V' h => ⟨h.held h₂.held, trivial⟩).bind fun _ V₃ _ => ?_
    exact Ends.raise nofun
  | opened ho =>
    cases ho with
    | activity hP' => cases hP.symm.trans hP'
  | @block _ l b v hb hl =>
    have hb' : Leaves W V.read vs b v := hb
    cases hb' with
    | activity hP' => cases hP.symm.trans hP'
    | spawnChild hP' _ => cases hP.symm.trans hP'
    | wait hP' _ =>
      rw [hP] at hP'
      cases hP'
    | @sleep _ _ _ _ e hP' he =>
      rw [show [e] ++ l = e :: l from rfl, List.find?_cons_of_pos he] at hfound
      obtain ⟨event, hevent, -⟩ := Option.map_eq_some_iff.mp hfound
      rw [hevent]
      refine (ends_now hpos.held).bind fun now V₁ hV₁ => ?_
      show Ends W (if _ then _ else _) _ V₁
      split
      · exact ends_replayed (hpos.same hV₁) hsnap (Leaves.mono hV₁.read hb)
          (Replayable.rest_mono hV₁.read hl)
      · have hheld := hV₁.held hpos.held
        refine (ends_release hheld rfl fun V' h => ⟨h.held hheld, trivial⟩).bind fun _ V₃ _ => ?_
        exact Ends.raise nofun

/-! ## spawn_child -/

theorem ends_spawnChild (hpos : Position W ctx vs done rest V) (hsnap : Snapshot ctx done rest)
    (hcount : ctx.stepCounter = vs.length) {name : String} {kwargs : Except PyExc Json}
    (hP : W.program.next vs = .spawnChild name kwargs) :
    Ends W (spawnChild W.rt ctx name kwargs) (Delivered W ctx vs) V := by
  have hfound : (ctx.findChildStartedEvent vs.length).map _ = _ := hsnap.find? hpos .childStarted
  have hpre := hsnap.prefix
  unfold spawnChild
  rw [show ctx.nextStepIndex.1 = vs.length from hcount]
  dsimp only
  have hrest := hpos.rest
  cases hrest with
  | nil =>
    rw [Option.map_eq_none_iff.mp hfound, hpos.workflowId]
    have hcreate : Ends W (transaction (.createChildWorkflow W.workflowId
        (childWorkflowId W.workflowId vs.length) name kwargs vs.length)) (fun _ V' => Delivered W
          ctx vs (W.rt.ofJson (.str (childWorkflowId W.workflowId vs.length))) V') V := by
      refine ends_transaction hpos.held (fun V' h => ⟨h.held hpos.held, trivial⟩)
        (fun V' V'' h hV => ?_) fun V' h hrefused => ?_
      · cases kwargs with
        | error error =>
          refine absurd ?_ (hV.payload (childWorkflowId W.workflowId vs.length) (-1) "workflow"
            .started error)
          simp [Txn.statements, insertInto, Except.map]
        | ok input =>
          have hblock : ∀ R, Leaves W R vs [⟨W.workflowId, vs.length, name, .childStarted, .obj
              [("child_id", .str (childWorkflowId W.workflowId vs.length)),
                ("workflow_name", .str name), ("input", input)]⟩]
              (W.rt.ofJson (.str (childWorkflowId W.workflowId vs.length))) := fun R =>
            .spawnChild hP ⟨Entry.isAt_iff.mpr ⟨rfl, rfl⟩, rfl, rfl, rfl⟩
          have h'' := (hpos.same h).committed hV rfl
            (Txn.stepEntries_createChildWorkflow _ _ _ _ _) fun R _ => by
              rw [List.nil_append, ← List.append_nil [_]]
              exact .block (hblock R) (.nil _)
          exact ⟨fun _ => h''.keep, fun V₃ hV₃ => (h''.same (hV₃ h''.held)).wrote hpre (hblock _)⟩
      · -- the child is there, but its CHILD_STARTED event is not
        obtain ⟨e, he, hat⟩ := hrefused
        rw [hpos.steps, List.append_nil] at he
        have := hpos.done.index_lt e he
        rw [show (W.grammar V.read).index e = vs.length from (Entry.isAt_iff.mp hat).1] at this
        omega
    exact hcreate.bind fun _ V' h => Ends.pure fun V'' hV => h.same hV
  | opened ho =>
    cases ho with
    | activity hP' => cases hP.symm.trans hP'
  | @block _ l b v hb hl =>
    have hb' : Leaves W V.read vs b v := hb
    cases hb' with
    | activity hP' => cases hP.symm.trans hP'
    | sleep hP' _ => cases hP.symm.trans hP'
    | wait hP' _ =>
      rw [hP] at hP'
      cases hP'
    | @spawnChild _ input e hP' he =>
      rw [show [e] ++ l = e :: l from rfl, List.find?_cons_of_pos he.isAt] at hfound
      obtain ⟨event, hevent, heq⟩ := Option.map_eq_some_iff.mp hfound
      rw [hevent]
      show Ends W (ExceptT.mk (.pure ((getItem event.payload _).map W.rt.ofJson))) _ V
      rw [show event.payload = e.payload from congrArg Entry.payload heq, getItem_of_get? he.childId]
      exact ends_replayed hpos hsnap hb hl

/-! ## the waits -/

/-- an answered wait leaves nothing behind -/
theorem rest_of_wait {wait : Wait} (hP : (W.program.next vs).wait? = some wait) {v : Val}
    (hread : V.read wait (.ok v)) (hpos : Position W ctx vs done rest V) :
    (W.grammar V.read).Rest (vs ++ [v]) rest := by
  have hrest := hpos.rest
  cases hrest with
  | nil => exact .nil _
  | opened ho =>
    cases ho with
    | activity hP' =>
      rw [hP'] at hP
      cases hP
  | @block _ l b v' hb hl =>
    have hb' : Leaves W V.read vs b v' := hb
    cases hb' with
    | wait hP' hv' =>
      obtain rfl := Option.some.inj (hP.symm.trans hP')
      obtain rfl := Except.ok.inj (hpos.functional vs _ _ _ hP hread hv')
      exact hl
    | _ hP' =>
      rw [hP'] at hP
      cases hP

theorem ends_answer {wait : Wait} (hP : (W.program.next vs).wait? = some wait)
    (hpos : Position W ctx vs done rest V) (hsnap : Snapshot ctx done rest) {o : Outcome Val}
    (hread : V.read wait o) : Ends W (ExceptT.mk (.pure o)) (Delivered W ctx vs) V := by
  cases o with
  | error e => exact Ends.raise fun _ => hpos.held
  | ok v => exact ends_replayed (b := []) hpos hsnap (.wait hP hread) (rest_of_wait hP hread hpos)

theorem ends_suspendUnlessAnswered {wait : Wait} (hP : (W.program.next vs).wait? = some wait)
    (hpos : Position W ctx vs done rest V) (hsnap : Snapshot ctx done rest) :
    Ends W (suspendUnlessAnswered W.rt ctx wait) (Delivered W ctx vs) V := by
  unfold suspendUnlessAnswered
  rw [Wait.mark_eq]
  refine (ends_release hpos.held rfl fun V' h => ⟨h.held hpos.held, trivial⟩).bind fun b V₁ h₁ => ?_
  cases b with
  | true => exact Ends.raise nofun
  | false =>
    replace h₁ := hpos.same (h₁ rfl)
    have hload : Ends W (loadEventHistory ctx.workflowId) (fun history V' => V₁.Same W V' ∧
        ∀ (wait : Wait) e, history.find? wait.isAnswer = some e →
          V'.read wait (wait.outcome W.rt e)) V₁ := by
      refine Ends.same h₁.held (fun V' h => ⟨h.held h₁.held, trivial⟩) (fun _ _ _ h => h.1)
        fun V' history V'' _ hans V₃ h₃ h => ⟨h, fun wait e he => ?_⟩
      exact h₃.read _ _ ((hans.2 h₁.workflowId).2 wait e he)
    refine hload.bind fun history V₂ ⟨hV₂, hread⟩ => ?_
    dsimp only
    cases hfind : history.find? wait.isAnswer with
    | some e => exact ends_answer hP (h₁.same hV₂) hsnap (hread wait e hfind)
    | none => exact Ends.raise nofun

theorem ends_waitFor {wait : Wait} (hP : (W.program.next vs).wait? = some wait)
    (hpos : Position W ctx vs done rest V) (hsnap : Snapshot ctx done rest) :
    Ends W (waitFor W.rt ctx wait) (Delivered W ctx vs) V := by
  unfold waitFor
  cases hfind : ctx.eventHistory.find? wait.isAnswer with
  | some e => exact ends_answer hP hpos hsnap (hpos.answers wait e hfind)
  | none =>
    show Ends W (if _ then _ else _) _ V
    split
    · refine (ends_writeEvent hpos fun p R _ h => ?_).bind fun _ V₁ ⟨p, _, h₁⟩ => ?_
      · rwa [List.filter_eq_nil_iff.mpr (by simp [Entry.isStep]), List.append_nil]
      · rw [List.filter_eq_nil_iff.mpr (by simp [Entry.isStep]), List.append_nil] at h₁
        exact ends_suspendUnlessAnswered hP h₁ hsnap
    · exact ends_suspendUnlessAnswered hP hpos hsnap

/-- **An await moves the position by one step, or raises.** -/
theorem ends_executeStep (hpos : Position W ctx vs done rest V) (hsnap : Snapshot ctx done rest)
    (hcount : ctx.stepCounter = vs.length) (hend : (W.program.next vs).isEnd = false) :
    Ends W (executeStep W.rt ctx (W.program.next vs)) (Delivered W ctx vs) V := by
  cases hP : W.program.next vs with
  | activity f args => exact ends_executeActivity hpos hsnap hcount hP
  | sleep seconds minutes hours days => exact ends_sleep hpos hsnap hcount hP
  | spawnChild name kwargs => exact ends_spawnChild hpos hsnap hcount hP
  | waitForChild childId => exact ends_waitFor (by rw [hP]; rfl) hpos hsnap
  | waitForSignal signalType => exact ends_waitFor (by rw [hP]; rfl) hpos hsnap
  | ret result =>
    rw [hP] at hend
    cases hend
  | raise error =>
    rw [hP] at hend
    cases hend

/-! ## start and end -/

/-- **A run starts at the beginning of the log.** -/
theorem ends_startRun (hheld : V.held) (hfunctional : W.Functional V.read)
    (hlog : (W.grammar V.read).Rest [] V.steps) (registry : String → Option (Json → Program Val))
    {record : WorkflowRecord} (hw : record.workflowId = W.workflowId) :
    Ends W (startRun registry record) (fun r V' => ∀ program ctx, r = some (program, ctx) →
      ctx.stepCounter = 0 ∧ ∃ rest, Position W ctx [] [] rest V' ∧ Snapshot ctx [] rest) V := by
  have hload : Ends W (loadEventHistory record.workflowId) (fun history V' => ∀ parentInfo,
      Position W ⟨record.workflowId, history, parentInfo, 0⟩ [] [] V'.steps V'
        ∧ stepEntries history = V'.steps) V := by
    refine Ends.same hheld (fun V' h => ⟨h.held hheld, trivial⟩) (fun _ _ _ h => h.1)
      fun V' history V'' _ hans V₃ h₃ h parentInfo => ?_
    obtain ⟨hsteps, hread⟩ := hans.2 hw
    exact ⟨⟨h.held hheld, h.functional hfunctional, hw,
      fun wait e he => h₃.read _ _ (hread wait e he), rfl, .nil, h.rest hlog⟩,
      hsteps.trans h₃.steps.symm⟩
  unfold startRun
  refine hload.bind fun history V₁ h₁ => ?_
  dsimp only
  have hheld₁ := (h₁ none).1.held
  split
  · refine (ends_release hheld₁ rfl fun V' h => ⟨h.held hheld₁, trivial⟩).bind fun _ V₂ _ => ?_
    exact Ends.pure fun _ _ => nofun
  · rename_i startedEvent _
    split
    · refine (ends_release hheld₁ rfl fun V' h => ⟨h.held hheld₁, trivial⟩).bind fun _ V₂ _ => ?_
      exact Ends.pure fun _ _ => nofun
    · refine Ends.pure fun V' hV program ctx hctx => ?_
      obtain ⟨rfl, rfl⟩ := Prod.mk.inj (Option.some.inj hctx)
      obtain ⟨hpos, hsteps⟩ := h₁ (parentInfoOf startedEvent.payload)
      exact ⟨rfl, V₁.steps, hpos.same (hV hheld₁), .inr hsteps⟩

theorem ends_finishRun_raise {error : PyExc} (hheld : error.isSuspension = false → V.held) :
    Ends W (finishRun W.rt ctx (.raise error)) (fun _ _ => True) V := by
  have hfail (hheld : V.held) : Ends W (ExceptT.mk (.pure (failureMessage W.rt error)) >>=
      fun message => transaction (.failWorkflow ctx.workflowId message ctx.parentInfo) >>=
        fun _ => pure ()) (fun _ _ => True) V := by
    refine (ends_result hheld _).bind fun message V₁ ⟨_, hV₁⟩ => ?_
    have h₁ := hV₁.held hheld
    exact (ends_release h₁ rfl fun V' h => ⟨h.held h₁, trivial⟩).bind
      fun _ V₂ _ => Ends.pure fun _ _ => trivial
  cases error with
  | workflowSuspended message => exact Ends.pure fun _ _ => trivial
  | baseException typeName message => exact Ends.raise hheld
  | _ => exact hfail (hheld rfl)

/-- **A run ends with the value of a pass over the log.** -/
theorem ends_finishRun (hpos : Position W ctx vs done rest V) {action : Action Val}
    (hP : W.program.next vs = action) (hend : action.isEnd = true) :
    Ends W (finishRun W.rt ctx action) (fun _ _ => True) V := by
  cases action with
  | ret result =>
    have hcomplete : Ends W (transaction (.completeWorkflow ctx.workflowId result ctx.parentInfo))
        (fun b V' => b = false → V.Same W V') V := by
      refine ends_release hpos.held rfl fun V' h =>
        ⟨h.held hpos.held, vs, done, Replayable.steps_mono h.read hpos.done, ?_, hP⟩
      rw [h.steps, hpos.steps]
      exact List.prefix_append done rest
    exact hcomplete.bind fun _ V₁ _ => Ends.pure fun _ _ => trivial
  | raise error =>
    cases error with
    | workflowSuspended message => exact Ends.pure fun _ _ => trivial
    | _ => exact ends_finishRun_raise fun _ => hpos.held
  | _ => cases hend

end

end TemporalLight
