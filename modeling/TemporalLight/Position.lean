import TemporalLight.Blocks
import TemporalLight.Origins

/-!
# A run on its way through the log

What one run of a replayable workflow `W` knows of the shared state is a `View`: the step events of
the log, whether the run still holds the lease, and the answers that have been read.  While it holds
the lease nobody else writes step events (`rules`, the rely condition).

A `Position` says where the run is: it has delivered the values `vs`, the log is `done ++ rest`,
`done` is what these steps have left, and `rest` is what follows.  A run replays while `rest` is
not empty, and every step that it executes leaves a block at the end of the log.

* `Snapshot.find?`    the finders of the context look into `rest`
* `Ends`              what engine code does at a position, and its rules for sequences and calls
* `ends_writeEvent`   a written event is the new end of the log
* `ends_release`      a transaction that gives the lease up
-/

namespace TemporalLight
open Resumption

/-! ## what a run sees -/

structure View (Val : Type) where
  /-- the step events of the log -/
  steps : List Entry
  /-- the run holds the lease -/
  held : Prop
  /-- the answers in the histories read so far -/
  read : Wait → Outcome Val → Prop

def Txn.releases : Txn → Bool
  | .markWorkflowWaiting _ _ => true
  | .updateWorkflowRunAt _ _ => true
  | .completeWorkflow _ _ _ => true
  | .failWorkflow _ _ _ => true
  | _ => false

/-- the step events that the transaction writes to the log of `w` -/
def Txn.stepEntries (w : String) (txn : Txn) : List Entry :=
  (txn.statements.filterMap Stmt.event?).filter fun e => e.workflowId == w && e.isStep

/-- a function that has returned `False`: a mark, or the creation of a child that is there -/
def Txn.Refused (steps : List Entry) : Txn → Prop
  | .markWorkflowWaiting _ _ => True
  | .createChildWorkflow _ _ _ _ i => ∃ e ∈ steps, e.isAt i .childStarted = true
  | _ => False

theorem Txn.stepEntries_of_releases {txn : Txn} (h : txn.releases = true) (w : String) :
    txn.stepEntries w = [] := by
  have hend : ∀ (w' : String) (ty : EventType) (outcome : Except PyExc (String × Json)) status
      parentInfo childStatus, ((writeTerminalWorkflowEvent w' ty outcome status parentInfo
        childStatus).filterMap Stmt.event?).filter (fun e => e.workflowId == w && e.isStep) = [] := by
    refine fun w' ty outcome status parentInfo childStatus =>
      List.filter_eq_nil_iff.mpr fun e he => ?_
    obtain ⟨o, -, rfl | ⟨parent, -, rfl⟩⟩ := mem_writeTerminal he <;> simp [Entry.isStep]
  cases txn with
  | completeWorkflow w' result parentInfo => exact hend _ _ _ _ _ _
  | failWorkflow w' message parentInfo => exact hend _ _ _ _ _ _
  | markWorkflowWaiting w' wait => simp [stepEntries, statements, Stmt.event?]
  | updateWorkflowRunAt w' time => simp [stepEntries, statements, Stmt.event?]
  | _ => cases h

theorem Txn.stepEntries_insertEvent (w : String) (i : Int) (n : String) (ty : EventType) (p : Json) :
    (Txn.insertEvent w i n ty (.ok p)).stepEntries w = [⟨w, i, n, ty, p⟩].filter Entry.isStep := by
  show List.filter _ [(⟨w, i, n, ty, p⟩ : Entry)] = _
  refine List.filter_congr fun e he => ?_
  rw [List.mem_singleton.mp he]
  simp

theorem Txn.stepEntries_createChildWorkflow (w c name : String) (input : Json) (i : Nat) :
    (Txn.createChildWorkflow w c name (.ok input) i).stepEntries w
      = [⟨w, i, name, .childStarted, .obj [("child_id", .str c), ("workflow_name", .str name),
        ("input", input)]⟩] := by
  show List.filter _ [(⟨c, -1, "workflow", .started, _⟩ : Entry), ⟨w, i, name, .childStarted, _⟩] = _
  simp [Entry.isStep]

section
variable {Val α β : Type} (W : Replayable Val)

/-- nothing has happened to the steps, and more may have been read -/
structure View.Same (V V' : View Val) : Prop where
  steps : V'.steps = V.steps
  held : V.held → V'.held
  read : ∀ wait o, V.read wait o → V'.read wait o
  functional : W.Functional V.read → W.Functional V'.read

theorem View.Same.refl (V : View Val) : V.Same W V := ⟨rfl, id, fun _ _ => id, id⟩

variable {W} in
theorem View.Same.trans {V V' V'' : View Val} (h : V.Same W V') (h' : V'.Same W V'') :
    V.Same W V'' where
  steps := h'.steps.trans h.steps
  held hheld := h'.held (h.held hheld)
  read wait o ho := h'.read wait o (h.read wait o ho)
  functional hf := h'.functional (h.functional hf)

variable {W} in
theorem View.Same.rest {V V' : View Val} (h : V.Same W V') {vs : List Val}
    (hlog : (W.grammar V.read).Rest vs V.steps) : (W.grammar V'.read).Rest vs V'.steps := by
  rw [h.steps]
  exact Replayable.rest_mono h.read hlog

/-- what must hold of the view when a run asks: it holds the lease, it invokes no body whose result
is recorded, and it records the result of a pass -/
def View.Allows (V : View Val) (q : Call Val) : Prop :=
  V.held ∧ match q with
    | .runActivityBody _ i _ _ => ∀ e ∈ V.steps, e.isAt i .completed = false
    | .transaction (.completeWorkflow _ result _) => ∃ vs done,
      (W.grammar V.read).Steps vs done ∧ done <+: V.steps ∧ W.program.next vs = .ret result
    | _ => True

/-- a transaction that has gone through -/
structure View.Committed (txn : Txn) (V V' : View Val) : Prop where
  steps : V'.steps = V.steps ++ txn.stepEntries W.workflowId
  payload : ∀ w i n ty error, Stmt.insertEvent w i n ty (.error error) ∉ txn.statements
  held : txn.releases = false → V'.held
  read : ∀ wait o, V.read wait o → V'.read wait o
  functional : W.Functional V.read → W.Functional V'.read

/-- the reply to a call, and the view before and after it -/
def View.Answers (V V' : View Val) : (q : Call Val) → q.Reply → Prop
  | .transaction txn, result => match (result : Except PyExc Bool) with
    | .ok true => V.Committed W txn V'
    | .ok false => V.Same W V' ∧ txn.Refused V.steps
    | .error _ => V.Same W V'
  | .loadEventHistory w, history => V.Same W V' ∧ (w = W.workflowId →
    stepEntries history = V'.steps ∧ ∀ (wait : Wait) e,
      history.find? wait.isAnswer = some e → V'.read wait (wait.outcome W.rt e))
  | .runActivityBody _ _ f args, result => V.Same W V' ∧ ∀ v,
    (result : Except PyExc Val) = .ok v → W.yields f args v
  | _, _ => V.Same W V'

/-- the rules for a run of `W` -/
def rules : Rules (Call Val) Call.Reply (View Val) where
  rely V V' := V.held → V.Same W V'
  ask q V := V.Allows W q
  answer q reply V V' := V.Answers W V' q reply
  keep V V' := (W.grammar V.read).Rest [] V.steps → (W.grammar V'.read).Rest [] V'.steps
  rely_refl V _ := .refl W V
  rely_trans h h' hheld := (h hheld).trans (h' ((h hheld).held hheld))

/-! ## positions -/

structure Position (ctx : WorkflowContext) (vs : List Val) (done rest : List Entry)
    (V : View Val) : Prop where
  held : V.held
  functional : W.Functional V.read
  workflowId : ctx.workflowId = W.workflowId
  answers : ∀ wait e, ctx.eventHistory.find? (Wait.isAnswer wait) = some e →
    V.read wait (wait.outcome W.rt e)
  steps : V.steps = done ++ rest
  done : (W.grammar V.read).Steps vs done
  rest : (W.grammar V.read).Rest vs rest

/-- the history of the run: it is replaying, or all that follows is its own -/
def Snapshot (ctx : WorkflowContext) (done rest : List Entry) : Prop :=
  (rest = [] ∧ stepEntries ctx.eventHistory <+: done)
    ∨ stepEntries ctx.eventHistory = done ++ rest

variable {W} {ctx : WorkflowContext} {vs : List Val} {done rest : List Entry} {V V' : View Val}

theorem Position.same (h : Position W ctx vs done rest V) (hV : V.Same W V') :
    Position W ctx vs done rest V' where
  held := hV.held h.held
  functional := hV.functional h.functional
  workflowId := h.workflowId
  answers wait e he := hV.read _ _ (h.answers wait e he)
  steps := hV.steps.trans h.steps
  done := Replayable.steps_mono hV.read h.done
  rest := Replayable.rest_mono hV.read h.rest

theorem Position.keep (h : Position W ctx vs done rest V) :
    (W.grammar V.read).Rest [] V.steps := by
  rw [h.steps]
  exact h.done.append_rest h.rest

theorem Position.advance {b l : List Entry} {v : Val} (h : Position W ctx vs done (b ++ l) V)
    (hb : Leaves W V.read vs b v) (hl : (W.grammar V.read).Rest (vs ++ [v]) l) :
    Position W ctx (vs ++ [v]) (done ++ b) l V where
  held := h.held
  functional := h.functional
  workflowId := h.workflowId
  answers := h.answers
  steps := by rw [h.steps, List.append_assoc]
  done := .snoc h.done hb
  rest := hl

theorem Snapshot.advance {b l : List Entry} (h : Snapshot ctx done (b ++ l)) :
    Snapshot ctx (done ++ b) l := by
  rcases h with ⟨hnil, hpre⟩ | heq
  · obtain ⟨rfl, rfl⟩ := List.append_eq_nil_iff.mp hnil
    exact .inl ⟨rfl, by rwa [List.append_nil]⟩
  · exact .inr (by rw [heq, List.append_assoc])

theorem Snapshot.prefix (h : Snapshot ctx done rest) :
    stepEntries ctx.eventHistory <+: done ++ rest := by
  rcases h with ⟨rfl, hpre⟩ | heq
  · rwa [List.append_nil]
  · rw [heq]

theorem Snapshot.find? (h : Snapshot ctx done rest) (hpos : Position W ctx vs done rest V)
    (ty : EventType) :
    (ctx.findEvent vs.length ty).map EventRecord.toEntry = rest.find? (Entry.isAt vs.length ty) := by
  have hdone : ∀ l, l <+: done → l.find? (Entry.isAt vs.length ty) = none := fun l hl =>
    List.find?_eq_none.mpr fun e he hat => by
      have := hpos.done.index_lt e (hl.subset he)
      rw [show (W.grammar V.read).index e = vs.length from (Entry.isAt_iff.mp hat).1] at this
      omega
  refine (find?_stepEntries ctx.eventHistory vs.length ty).symm.trans ?_
  rcases h with ⟨rfl, hpre⟩ | heq
  · exact hdone _ hpre
  · rw [heq, List.find?_append, hdone done (List.prefix_refl done), Option.none_or]

theorem Snapshot.countFailed (h : Snapshot ctx done rest) (hpos : Position W ctx vs done rest V) :
    ctx.countFailedEvents vs.length = rest.countP (Entry.isAt vs.length .failed) := by
  have hdone : ∀ l, l <+: done → l.countP (Entry.isAt vs.length .failed) = 0 := fun l hl =>
    List.countP_eq_zero.mpr fun e he hat => by
      have := hpos.done.index_lt e (hl.subset he)
      rw [show (W.grammar V.read).index e = vs.length from (Entry.isAt_iff.mp hat).1] at this
      omega
  refine (countP_stepEntries ctx.eventHistory vs.length .failed).symm.trans ?_
  rcases h with ⟨rfl, hpre⟩ | heq
  · exact hdone _ hpre
  · rw [heq, List.countP_append, hdone done (List.prefix_refl done), Nat.zero_add]

/-! ## engine code -/

variable (W) in
/-- `c` asks only what it may, and ends with a value that satisfies `Q` or raises; an error, which
will end the workflow, leaves it the lease -/
def Ends (c : Engine Val α) (Q : α → View Val → Prop) (V : View Val) : Prop :=
  wp (rules W) c.run (fun r V' => match r with
    | .ok a => Q a V'
    | .error e => e.isSuspension = false → V'.held) V

theorem Ends.pure {Q : α → View Val → Prop} {a : α}
    (h : ∀ V', (V.held → V.Same W V') → Q a V') : Ends W (pure a) Q V := h

theorem Ends.raise {Q : α → View Val → Prop} {e : PyExc}
    (h : e.isSuspension = false → V.held) : Ends W (throw e : Engine Val α) Q V :=
  fun _ hV he => (hV (h he)).held (h he)

theorem Ends.bind {c : Engine Val α} {f : α → Engine Val β} {Q : α → View Val → Prop}
    {Q' : β → View Val → Prop} (hc : Ends W c Q V)
    (hf : ∀ a V', Q a V' → Ends W (f a) Q' V') : Ends W (c >>= f) Q' V := by
  refine wp_run_bind (wp_mono (fun r V' hr => ?_) hc)
  cases r with
  | ok a => exact hf a V' hr
  | error e => exact Ends.raise hr

theorem Ends.mono {c : Engine Val α} {Q Q' : α → View Val → Prop} (hQ : ∀ a V', Q a V' → Q' a V')
    (hc : Ends W c Q V) : Ends W c Q' V := by
  refine wp_mono (fun r V' hr => ?_) hc
  cases r with
  | ok a => exact hQ a V' hr
  | error e => exact hr

theorem ends_result (hheld : V.held) (r : Except PyExc α) :
    Ends W (ExceptT.mk (.pure r)) (fun a V' => r = .ok a ∧ V.Same W V') V := by
  cases r with
  | ok a => exact Ends.pure fun V' hV => ⟨rfl, hV hheld⟩
  | error e => exact Ends.raise fun _ => hheld

theorem Ends.call {Q : α → View Val → Prop} (hheld : V.held) {q : Call Val}
    {k : q.Reply → Except PyExc α} (hask : ∀ V', V.Same W V' → V'.Allows W q)
    (hans : ∀ V' reply V'', V.Same W V' → V'.Answers W V'' q reply →
      ((W.grammar V'.read).Rest [] V'.steps → (W.grammar V''.read).Rest [] V''.steps)
        ∧ (match k reply with
          | .ok a => ∀ V₃, (V''.held → V''.Same W V₃) → Q a V₃
          | .error e => e.isSuspension = false → V''.held)) :
    Ends W (ExceptT.mk (.call q fun reply => .pure (k reply))) Q V := by
  have hstable : Stable (rules W) (V.Same W) := fun V₁ V₂ hV h => h.trans (hV (h.held hheld))
  refine wp_call hstable (.refl W V) hask fun V' reply V'' h hreply => ?_
  obtain ⟨hkeep, hk⟩ := hans V' reply V'' h hreply
  refine ⟨hkeep, ?_⟩
  cases hr : k reply with
  | ok a =>
    rw [hr] at hk
    exact fun V₃ hV => hk V₃ hV
  | error e =>
    rw [hr] at hk
    exact fun V₃ hV he => (hV (hk he)).held (hk he)

theorem Ends.same {Q : α → View Val → Prop} (hheld : V.held) {q : Call Val} {k : q.Reply → α}
    (hask : ∀ V', V.Same W V' → V'.Allows W q)
    (hsame : ∀ (V' : View Val) reply V'', V'.Answers W V'' q reply → V'.Same W V'')
    (hQ : ∀ V' reply V'', V.Same W V' → V'.Answers W V'' q reply → ∀ V₃, V''.Same W V₃ →
      V.Same W V₃ → Q (k reply) V₃) :
    Ends W (ExceptT.mk (.call q fun reply => .pure (.ok (k reply)))) Q V := by
  refine Ends.call hheld hask fun V' reply V'' h hreply => ?_
  have h' := hsame V' reply V'' hreply
  refine ⟨h'.rest, fun V₃ hV => ?_⟩
  have h₃ := hV (h'.held (h.held hheld))
  exact hQ V' reply V'' h hreply V₃ h₃ ((h.trans h').trans h₃)

theorem ends_now (hheld : V.held) : Ends W now (fun _ V' => V.Same W V') V :=
  Ends.same hheld (fun _ h => ⟨h.held hheld, trivial⟩) (fun _ _ _ h => h) fun _ _ _ _ _ _ _ h => h

theorem ends_pgNotify (hheld : V.held) (w : String) :
    Ends W (pgNotify w) (fun _ V' => V.Same W V') V :=
  Ends.same hheld (fun _ h => ⟨h.held hheld, trivial⟩) (fun _ _ _ h => h) fun _ _ _ _ _ _ _ h => h

/-! ## transactions -/

theorem Position.committed {txn : Txn} (hpos : Position W ctx vs done rest V)
    (hV : V.Committed W txn V') (hrel : txn.releases = false) {b : List Entry}
    (hb : txn.stepEntries W.workflowId = b)
    (hnext : ∀ R, (W.grammar R).Rest vs rest → (W.grammar R).Rest vs (rest ++ b)) :
    Position W ctx vs done (rest ++ b) V' where
  held := hV.held hrel
  functional := hV.functional hpos.functional
  workflowId := hpos.workflowId
  answers wait e he := hV.read _ _ (hpos.answers wait e he)
  steps := by rw [hV.steps, hpos.steps, hb, List.append_assoc]
  done := Replayable.steps_mono hV.read hpos.done
  rest := hnext _ (Replayable.rest_mono hV.read hpos.rest)

theorem ends_transaction (hheld : V.held) {txn : Txn} {Q : Bool → View Val → Prop}
    (hask : ∀ V', V.Same W V' → V'.Allows W (.transaction txn))
    (hcommit : ∀ V' V'', V.Same W V' → V'.Committed W txn V'' →
      ((W.grammar V'.read).Rest [] V'.steps → (W.grammar V''.read).Rest [] V''.steps)
        ∧ ∀ V₃, (V''.held → V''.Same W V₃) → Q true V₃)
    (hrefused : ∀ V', V.Same W V' → txn.Refused V.steps → Q false V') :
    Ends W (transaction txn) Q V := by
  refine Ends.call (k := id) hheld hask fun V' reply V'' h hreply => ?_
  cases reply with
  | error e => exact ⟨View.Same.rest hreply, fun _ => hreply.held (h.held hheld)⟩
  | ok b =>
    cases b with
    | true => exact hcommit V' V'' h hreply
    | false =>
      have h'' := h.trans hreply.1
      refine ⟨hreply.1.rest, fun V₃ hV => hrefused V₃ (h''.trans (hV (h''.held hheld))) ?_⟩
      rw [← h.steps]
      exact hreply.2

theorem ends_release (hheld : V.held) {txn : Txn} (hrel : txn.releases = true)
    (hask : ∀ V', V.Same W V' → V'.Allows W (.transaction txn)) :
    Ends W (transaction txn) (fun b V' => b = false → V.Same W V') V := by
  refine ends_transaction hheld hask (fun V' V'' h hV => ⟨fun hlog => ?_, nofun⟩)
    fun V' h _ _ => h
  rw [hV.steps, Txn.stepEntries_of_releases hrel, List.append_nil]
  exact Replayable.rest_mono hV.read hlog

theorem ends_writeEvent (hpos : Position W ctx vs done rest V) {i : Int} {n : String}
    {ty : EventType} {payload : Except PyExc Json}
    (hnext : ∀ p R, payload = .ok p → (W.grammar R).Rest vs rest →
      (W.grammar R).Rest vs (rest ++ [⟨W.workflowId, i, n, ty, p⟩].filter Entry.isStep)) :
    Ends W (writeEvent ctx.workflowId i n ty payload) (fun _ V' => ∃ p, payload = .ok p
      ∧ Position W ctx vs done (rest ++ [⟨W.workflowId, i, n, ty, p⟩].filter Entry.isStep) V') V := by
  rw [hpos.workflowId]
  have hinsert : Ends W (transaction (.insertEvent W.workflowId i n ty payload)) (fun _ V' =>
      ∃ p, payload = .ok p ∧ Position W ctx vs done
        (rest ++ [⟨W.workflowId, i, n, ty, p⟩].filter Entry.isStep) V') V := by
    refine ends_transaction hpos.held (fun V' h => ⟨h.held hpos.held, trivial⟩)
      (fun V' V'' h hV => ?_) nofun
    cases payload with
    | error error => exact absurd List.mem_cons_self (hV.payload _ _ _ _ error)
    | ok p =>
      have h'' := (hpos.same h).committed hV rfl
        (Txn.stepEntries_insertEvent W.workflowId i n ty p) fun R => hnext p R rfl
      exact ⟨fun _ => h''.keep, fun V₃ hV₃ => ⟨p, rfl, h''.same (hV₃ h''.held)⟩⟩
  refine hinsert.bind fun _ V' ⟨p, hp, h⟩ => ?_
  exact (ends_pgNotify h.held _).mono fun _ V'' hV => ⟨p, hp, h.same hV⟩

end

end TemporalLight
