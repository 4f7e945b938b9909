import TemporalLight.Awaits
import TemporalLight.Exclusion
import TemporalLight.Children

/-!
# The runs of a replayable workflow among the other threads

What a run knows of the shared state (`View`) is here a part of the state of the whole system, and
the steps of the system keep to the rules that the awaits rely on.

* `straight_ok`    only the last await of a run has raised, so its suspension is final
* `view_same`      a step of another thread changes nothing that a run holds on to
* `view_answers`   a reply to a run is one that the rules allow
-/

namespace TemporalLight
open Runs Resumption

section
variable {Val : Type}

/-! ## straight runs -/

/-- what the awaits of the run have returned -/
def Run.values (r : Run Val) : List Val := r.delivered.filterMap Except.toOption

/-- the run executes a program of the kind `Q`, and no await but the last one has raised -/
def Run.Straight (Q : Program Val → Prop) (r : Run Val) : Prop :=
  match r.code with
  | .starting _ => r.delivered = []
  | .stepping _ => Q r.program ∧ r.delivered = r.values.map .ok
  | _ => r.delivered = r.values.map .ok
    ∨ ∃ error, r.delivered = r.values.map .ok ++ [.error error]

/-- a step under which the workflow `W` is replayed: it takes the lease from no run that goes on, the
runs of the workflow have loaded its program, and the bodies of its activities return what they
may -/
structure Replayable.Admits (W : Replayable Val) (s : Sys Val) (l : Label Val) : Prop where
  keeps : s.keepsLease W.workflowId l
  program : ∀ t r c program ctx, l = .advance t → s.run? t = some r → r.workflowId = W.workflowId →
    r.code = .starting c → c.run.value? = some (.ok (some (program, ctx))) → program = W.program
  yields : ∀ t r w i f args k v, l = .body t (.ok v) → s.run? t = some r →
    r.workflowId = W.workflowId → r.next? = some ⟨.runActivityBody w i f args, k⟩ →
      W.yields f args v

theorem values_append_ok {delivered : List (Outcome Val)} (v : Val) :
    (delivered ++ [Except.ok v]).filterMap Except.toOption
      = delivered.filterMap Except.toOption ++ [v] := by
  rw [List.filterMap_append]
  rfl

theorem values_append_error {delivered : List (Outcome Val)} (error : PyExc) :
    (delivered ++ [Except.error error]).filterMap Except.toOption
      = delivered.filterMap Except.toOption := by
  rw [List.filterMap_append]
  exact List.append_nil _

theorem values_map_ok (vs : List Val) :
    (vs.map (Except.ok : Val → Outcome Val)).filterMap Except.toOption = vs := by
  rw [List.filterMap_map]
  exact List.filterMap_some

theorem suspends_map_ok (vs : List Val) :
    (vs.map (Except.ok : Val → Outcome Val)).any suspends = false := by
  rw [List.any_eq_false]
  intro o ho
  obtain ⟨v, -, rfl⟩ := List.mem_map.mp ho
  exact Bool.false_ne_true

theorem Run.next?_straight {Q : Program Val → Prop} {r : Run Val}
    {n : (q : Call Val) × (q.Reply → Run Val)} (hn : r.next? = some n) (reply : n.1.Reply)
    (h : r.Straight Q) : (n.2 reply).Straight Q := by
  unfold Run.next? at hn
  unfold Run.Straight at h
  cases hc : r.code with
  | ended =>
    rw [hc] at hn
    cases hn
  | _ =>
    rw [hc] at hn h
    obtain ⟨m, -, rfl⟩ := Option.map_eq_some_iff.mp hn
    exact h

theorem straight_resume {rt : Runtime Val} {Q : Program Val → Prop} {r : Run Val}
    (hQ : Q r.program) (hfree : r.program.HandlerFree) (h : r.delivered = r.values.map .ok
      ∨ ∃ error, r.delivered = r.values.map .ok ++ [.error error]) : (r.resume rt).Straight Q := by
  unfold Run.resume
  dsimp only
  split
  · exact h
  · rename_i hend
    refine ⟨hQ, h.resolve_right ?_⟩
    rintro ⟨error, herror⟩
    rw [herror, hfree] at hend
    exact hend rfl

variable {d : Deployment Val} {s s' : Sys Val} {ok : Sys Val → Label Val → Prop} {W : Replayable Val}

/-- **Runs that load programs without handlers are straight.** -/
theorem straight_of_loads {A : String → Prop} {Q : Program Val → Prop}
    (hQ : ∀ P, Q P → P.HandlerFree)
    (hload : ∀ s t r c program ctx, Reachable d ok s → ok s (.advance t) → s.run? t = some r →
      A r.workflowId → r.code = .starting c → c.run.value? = some (.ok (some (program, ctx))) →
        Q program)
    (hs : Reachable d ok s) {t : Nat} {r : Run Val} (hr : s.run? t = some r) (hw : A r.workflowId) :
    r.Straight Q := by
  obtain ⟨past, htrace⟩ := hs.exists_trace
  refine run_invariant (I := fun _ _ _ r => A r.workflowId → r.Straight Q)
    ?_ ?_ ?_ ?_ ?_ htrace hr hw
  · intro t r hr
    rw [Sys.initial_run?] at hr
    cases hr
  · intro _ _ _ _ _ _ _ _ _ _ _ _ _ _ _
    exact rfl
  · intro _ _ _ _ _ _ _ _ _ _ _ h
    exact h
  · intro _ _ _ _ _ r _ n reply _ _ _ _ hn _ h hw
    rw [Run.workflowId, (Run.next?_record hn reply).1] at hw
    exact Run.next?_straight hn reply (h hw)
  · intro _ s _ t r r' htrace hl _ hth hadv h hw
    rw [Run.workflowId, (Run.advance_record hadv).1] at hw
    replace h := h hw
    unfold Run.Straight at h
    rcases Run.advance_cases hadv with ⟨c, program, ctx, hc, hval, rfl⟩ | ⟨c, outcome, hc, -, rfl⟩
        | ⟨rfl, ⟨c, _, hc, -, -⟩ | ⟨c, _, hc, -⟩⟩
    · have hprogram : Q program :=
        hload s t r c program ctx htrace.reach hl (Sys.run?_eq hth) hw hc (by rw [hval]; rfl)
      exact straight_resume hprogram (hQ _ hprogram) (.inl rfl)
    · rw [hc] at h
      refine straight_resume h.1 (hQ _ h.1) ?_
      cases outcome with
      | ok v =>
        refine .inl ?_
        show r.delivered ++ [Except.ok v]
          = ((r.delivered ++ [Except.ok v]).filterMap Except.toOption).map .ok
        rw [values_append_ok, List.map_append]
        exact congrArg (· ++ [.ok v]) h.2
      | error error =>
        refine .inr ⟨error, ?_⟩
        show r.delivered ++ [Except.error error]
          = ((r.delivered ++ [Except.error error]).filterMap Except.toOption).map .ok
            ++ [.error error]
        rw [values_append_error]
        exact congrArg (· ++ [.error error]) h.2
    · rw [hc] at h
      refine .inl ?_
      show r.delivered = r.values.map .ok
      rw [Run.values, h]
      rfl
    · rw [hc] at h
      exact h

theorem straight_ok (hok : ∀ s l, ok s l → W.Admits s l) (hs : Reachable d ok s) {t : Nat}
    {r : Run Val} (hr : s.run? t = some r) (hw : r.workflowId = W.workflowId) :
    r.Straight (· = W.program) := by
  refine straight_of_loads (A := (· = W.workflowId)) (fun P hP => hP ▸ W.handler_free) ?_ hs hr hw
  exact fun s t r c program ctx _ hl hr hw hc hval =>
    (hok s _ hl).program t r c program ctx rfl hr hw hc hval

/-- a function without handlers stays suspended -/
theorem Run.Straight.staysSuspended {rt : Runtime Val} {r : Run Val} {Q : Program Val → Prop}
    (hQ : ∀ P, Q P → P.HandlerFree) (h : r.Straight Q) (clock : Int) :
    r.staysSuspended rt clock = true := by
  unfold Run.Straight at h
  unfold Run.staysSuspended
  cases hc : r.code with
  | stepping c =>
    rw [hc] at h
    obtain ⟨hprogram, hvalues⟩ := h
    show c.run.value?.all _ = true
    cases c.run.value? with
    | none => rfl
    | some outcome =>
      show (!(r.delivered ++ [outcome]).any suspends || _) = true
      rw [hvalues, List.any_append, suspends_map_ok]
      cases outcome with
      | ok v => rfl
      | error error =>
        rw [hQ _ hprogram]
        show (!(false || (error.isSuspension || false)) || error.isSuspension) = true
        cases error.isSuspension <;> rfl
  | _ => rfl

/-! ## the view of a run -/

/-- the answers of `w` in the histories read so far -/
def Sys.reads (s : Sys Val) (rt : Runtime Val) (w : String) (wait : Wait) (o : Outcome Val) : Prop :=
  ∃ history first, (w, history) ∈ s.loaded ∧ history.find? wait.isAnswer = some first
    ∧ o = wait.outcome rt first

/-- what the run of thread `t` knows of the workflow `w` -/
def Sys.view (s : Sys Val) (rt : Runtime Val) (w : String) (t : Nat) : View Val where
  steps := stepEntries (s.history w)
  held := s.lease w = some t
  read := s.reads rt w

theorem Sys.reads_mono (hL : s.loaded ⊆ s'.loaded) {rt : Runtime Val} {w : String} {wait : Wait}
    {o : Outcome Val} (h : s.reads rt w wait o) : s'.reads rt w wait o := by
  obtain ⟨history, first, hl, hfirst, ho⟩ := h
  exact ⟨history, first, hL hl, hfirst, ho⟩

/-! ## functions that return `False` -/

/-- a function that has returned `False` has come to a statement that lets it -/
theorem returned_of_false {Q : Sys Val → Stmt → Prop}
    (hreturn : ∀ (s : Sys Val) (t : Nat) (x : Tx) (stmt : Stmt), Reachable d ok s →
      s.effect d t x stmt = .returned → Q s stmt)
    (hkeep : ∀ (s : Sys Val) l (s' : Sys Val) stmt, Step d s l s' → Q s stmt → Q s' stmt)
    (hs : Reachable d ok s) {t : Nat} {x : Tx} (hx : s.tx? t = some x)
    (hres : x.result = .ok false) :
    ∃ stmt ∈ x.txn.statements, Q s stmt := by
  refine Reach.invariant_of_reach (I := fun s : Sys Val => ∀ t x, s.tx? t = some x →
    x.result = .ok false → ∃ stmt ∈ x.txn.statements, Q s stmt) ?_ ?_ hs t x hx hres
  · intro t x hx
    rw [Sys.initial_tx?] at hx
    cases hx
  · intro s l s' hr ih _ hl t x hx hres
    have hstep := Step.of_step hl
    have hmono {txn : Txn} (h : ∃ stmt ∈ txn.statements, Q s stmt) :
        ∃ stmt ∈ txn.statements, Q s' stmt := by
      obtain ⟨stmt, hmem, hQ⟩ := h
      exact ⟨stmt, hmem, hkeep s l s' stmt hstep hQ⟩
    rcases hstep.tx_cases hx with ⟨hx, -⟩ | ⟨_, _, _, -, -, -, rfl⟩
        | ⟨x₀, stmt, rest, -, hx₀, hrest, hafter⟩
    · exact hmono (ih t x hx hres)
    · cases hres
    · rcases Tx.after_cases hafter with ⟨_, -, rfl⟩ | ⟨heff, rfl⟩ | ⟨-, rfl⟩
      · cases hres
      · have horder := (tx_ok hr hx₀).order ((tx_ok hr hx₀).result_of_rest hrest)
        have hmem : stmt ∈ x₀.txn.statements := by
          rw [← horder, hrest]
          exact List.mem_append_right _ List.mem_cons_self
        exact hmono ⟨stmt, hmem, hreturn s t x₀ stmt hr heff⟩
      · exact hmono (ih t x₀ hx₀ hres)

/-- the child that a statement has found, if it has returned `False` -/
def Stmt.Found (s : Sys Val) : Stmt → Prop
  | .insertChildWorkflow childId _ _ => (s.row? childId).isSome = true
  | .returnIfAnswered _ _ => True
  | _ => False

/-- only a mark and the creation of a child may return `False` -/
theorem Txn.mayReturn_cases {txn : Txn} {stmt : Stmt} (hmem : stmt ∈ txn.statements)
    (h : stmt.mayReturn = true) :
    (∃ w wait, txn = .markWorkflowWaiting w wait)
    ∨ ∃ p c name input i, txn = .createChildWorkflow p c name input i
      ∧ stmt = .insertChildWorkflow c name p := by
  have hnot (hnone : ∀ a ∈ txn.statements, a.mayReturn = false) : False := by
    rw [hnone stmt hmem] at h
    cases h
  cases txn with
  | markWorkflowWaiting w wait => exact .inl ⟨w, wait, rfl⟩
  | createChildWorkflow p c name input i =>
    refine .inr ⟨p, c, name, input, i, rfl, ?_⟩
    simp only [Txn.statements, insertInto, List.mem_append, List.mem_cons, List.not_mem_nil,
      or_false] at hmem
    rcases hmem with (((rfl | rfl) | rfl | rfl) | rfl | rfl) | rfl <;> first | rfl | cases h
  | completeWorkflow w result parentInfo =>
    refine (hnot ?_).elim
    cases parentInfo <;>
      simp [Txn.statements, writeTerminalWorkflowEvent, insertInto, Stmt.mayReturn]
  | failWorkflow w message parentInfo =>
    refine (hnot ?_).elim
    cases parentInfo <;>
      simp [Txn.statements, writeTerminalWorkflowEvent, insertInto, Stmt.mayReturn]
  | _ =>
    refine (hnot ?_).elim
    simp [Txn.statements, insertInto, Stmt.mayReturn]

/-- **What a refused call tells its run.** -/
theorem refused_of_false (hs : Reachable d ok s) {t : Nat} {r : Run Val} {x : Tx}
    (hth : s.threads[t]? = some ⟨.run r, some x, true⟩) (hres : x.result = .ok false) :
    x.txn.Refused (stepEntries (s.history r.workflowId)) := by
  have hreturn (s : Sys Val) (t : Nat) (x : Tx) (stmt : Stmt) (_ : Reachable d ok s)
      (heff : s.effect d t x stmt = .returned) : stmt.Found s := by
    cases stmt with
    | insertChildWorkflow c name parentId =>
      simp only [Sys.effect] at heff
      split at heff
      · assumption
      · split at heff <;> cases heff
    | returnIfAnswered w wait => trivial
    | _ => cases Sys.mayReturn_of_effect heff
  have hkeep (s : Sys Val) l (s' : Sys Val) (stmt : Stmt) (hstep : Step d s l s')
      (hfound : stmt.Found s) : stmt.Found s' := by
    cases stmt with
    | insertChildWorkflow c name parentId => exact hstep.row?_isSome hfound
    | returnIfAnswered w wait => trivial
    | _ => cases hfound
  obtain ⟨stmt, hmem, hfound⟩ := returned_of_false (Q := fun s stmt => stmt.Found s) hreturn hkeep
    hs (Sys.tx?_eq hth) hres
  have hret : stmt.mayReturn = true := by
    cases stmt <;> first | rfl | cases hfound
  have hrun : x.txn.OfRun r.workflowId r.wait? s.loaded := issues_of_thread hs hth rfl
  rcases Txn.mayReturn_cases hmem hret with ⟨w, wait, htxn⟩ | ⟨p, c, name, input, i, htxn, rfl⟩
  · rw [htxn]
    trivial
  · rw [htxn] at hrun ⊢
    obtain ⟨hp, rfl⟩ := hrun
    rw [← hp] at hfound ⊢
    replace hfound : (s.row? (childWorkflowId p i)).isSome = true := hfound
    -- a child comes with its CHILD_STARTED event
    have hone := countP_childStarted hs p i
    rw [if_pos hfound] at hone
    obtain ⟨e, -, he, hkind⟩ := filter_of_countP hone
    simp only [Entry.isChildStarted, Bool.and_eq_true, beq_iff_eq] at hkind
    have hat : e.toEntry.isAt i .childStarted = true := Entry.isAt_iff.mpr ⟨hkind.2, hkind.1⟩
    exact ⟨e.toEntry, List.mem_filter.mpr ⟨List.mem_map_of_mem he, Entry.isStep_of_isAt hat⟩, hat⟩

/-- under `ok` the workflow `W` is replayed -/
structure Replayable.ReplayedIn (W : Replayable Val) (d : Deployment Val)
    (ok : Sys Val → Label Val → Prop) : Prop where
  rt : W.rt = d.toRuntime
  admits : ∀ s l, ok s l → W.Admits s l
  stays : ∀ s t r, ok s (.advance t) → s.run? t = some r → r.workflowId = W.workflowId →
    r.staysSuspended d.toRuntime s.clock = true
  functional : ∀ s, Reachable d ok s → W.Functional (s.reads W.rt W.workflowId)

section
variable (hW : W.ReplayedIn d ok)
include hW

theorem Replayable.ReplayedIn.keeps (s : Sys Val) (l : Label Val) (s' : Sys Val)
    (_ : Reachable d ok s) (hl : ok s l) (_ : Step d s l s') : s.keepsLease W.workflowId l :=
  (hW.admits s l hl).keeps

theorem view_same (hs' : Reachable d ok s') {t : Nat}
    (hloaded : s.loaded ⊆ s'.loaded)
    (hsteps : stepEntries (s'.history W.workflowId) = stepEntries (s.history W.workflowId))
    (hlease : s.lease W.workflowId = some t → s'.lease W.workflowId = some t) :
    (s.view W.rt W.workflowId t).Same W (s'.view W.rt W.workflowId t) where
  steps := hsteps
  held := hlease
  read _ _ := Sys.reads_mono hloaded
  functional _ := hW.functional _ hs'

omit hW in
theorem answers_transaction {V V' : View Val} {txn : Txn} {result : Except PyExc Bool}
    (htrue : result = .ok true → V.Committed W txn V')
    (hfalse : result = .ok false → V.Same W V' ∧ txn.Refused V.steps)
    (herror : result ≠ .ok true → V.Same W V') : V.Answers W V' (.transaction txn) result := by
  cases result with
  | error e => exact herror (by simp)
  | ok b =>
    cases b with
    | true => exact htrue rfl
    | false => exact hfalse rfl

/-- **A reply to a run is one that the rules allow.** -/
theorem view_answers (hs : Reachable d ok s) {l : Label Val} (hl : ok s l)
    (hstep : s.step d l = some s') {t : Nat} {r : Run Val} {tx : Option Tx}
    (hth : s.threads[t]? = some ⟨.run r, tx, true⟩) (hw : r.workflowId = W.workflowId)
    (hover : r.isOver = false) {n : (q : Call Val) × (q.Reply → Run Val)} (hn : r.next? = some n)
    {reply : n.1.Reply} (hans : Answers s t l n.1 reply s') :
    (s.view W.rt W.workflowId t).Answers W (s'.view W.rt W.workflowId t) n.1 reply := by
  have hs' : Reachable d ok s' := .step l hs hl hstep
  have hstep := Step.of_step hstep
  obtain ⟨q, k⟩ := n
  cases hans with
  | @commit task x txn k' hth' hrest =>
    obtain ⟨-, rfl, -⟩ := Thread.mk.inj (Option.some.inj (hth.symm.trans hth'))
    obtain ⟨k₀, hk₀, -, -⟩ := commit_run hs hth hstep
    obtain rfl := Call.transaction.inj (Sigma.mk.inj (Option.some.inj (hn.symm.trans hk₀))).1
    obtain ⟨hlease, hkept, htrue, hfalse⟩ :=
      living_commit hW.keeps hW.stays hs hl hstep hth hw hover
    have hloaded := hstep.loaded_subset
    have hsame (hres : x.result ≠ .ok true) :
        (s.view W.rt W.workflowId t).Same W (Sys.view _ W.rt W.workflowId t) :=
      view_same hW hs' hloaded (hfalse hres) fun _ => hkept fun h => absurd h hres
    refine answers_transaction (fun hres => ?_) (fun hres => ⟨hsame (by simp [hres]), ?_⟩) hsame
    · refine ⟨htrue hres, fun w i n ty error hmem => ?_, fun hrel => hkept fun _ => hrel,
        fun _ _ => Sys.reads_mono hloaded, fun _ => hW.functional _ hs'⟩
      rw [← (tx_ok hs (Sys.tx?_eq hth)).executed_of_rest hrest hres] at hmem
      exact payload_of_executed hs (Sys.tx?_eq hth) hmem
    · have hrefused := refused_of_false hs hth hres
      rwa [hw] at hrefused
  | @read _ _ th hreply =>
    obtain ⟨hlease, hkept, hsteps⟩ :=
      living_step hW.keeps hW.stays hs hl hstep hth hw hover (by simp)
    have hsame := view_same hW hs' hstep.loaded_subset hsteps fun _ => hkept
    cases q with
    | loadEventHistory w =>
      obtain rfl := Option.some.inj hreply
      refine ⟨hsame, fun hwW => ⟨?_, fun wait e he => ?_⟩⟩
      · rw [hwW]
        exact hsame.steps.symm
      · subst hwW
        exact ⟨s.history W.workflowId, e, List.mem_cons_self, he, rfl⟩
    | runActivityBody w i f args => cases hreply
    | transaction txn => cases hreply
    | _ => exact hsame
  | @body w i f args th result =>
    obtain ⟨hlease, hkept, hsteps⟩ :=
      living_step hW.keeps hW.stays hs hl hstep hth hw hover (by simp)
    refine ⟨view_same hW hs' hstep.loaded_subset hsteps fun _ => hkept, fun v hv => ?_⟩
    subst hv
    exact (hW.admits _ _ hl).yields t r w i f args k v rfl (Sys.run?_eq hth) hw hn

end

end

end TemporalLight
