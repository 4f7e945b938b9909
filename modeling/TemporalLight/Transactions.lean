import TemporalLight.Transitions

/-!
# Transactions in flight

A transaction is a list of statements that has been executed up to some point.

* `Tx.Ok`            what it has inserted, created and updated so far is what the executed
                     statements say, and a transaction that raised or returned `False` has nothing
                     to write;
* `Tx.committed`     hence what a commit makes visible;
* `locks_compatible` two transactions never hold conflicting locks on one row, so a transaction
                     that holds a row FOR UPDATE can be sure that no other one writes to the row or
                     to its log before it ends.
-/

namespace TemporalLight
open Runs

/-! ## what a statement leaves behind -/

def Stmt.event? : Stmt → Option Entry
  | .insertEvent workflowId stepIndex stepName eventType (.ok payload) =>
    some ⟨workflowId, stepIndex, stepName, eventType, payload⟩
  | _ => none

/-- key, name and parent of the row that a statement inserts -/
def Stmt.created? : Stmt → Option (String × String × Option String)
  | .insertWorkflow workflowId name => some (workflowId, name, none)
  | .insertChildWorkflow workflowId name parentId => some (workflowId, name, some parentId)
  | _ => none

def Stmt.change? : Stmt → Option (String × Change)
  | .update workflowId change => some (workflowId, change)
  | _ => none

/-- the statement may end the function with `return False` -/
def Stmt.mayReturn : Stmt → Bool
  | .insertChildWorkflow _ _ _ => true
  | .returnIfAnswered _ _ => true
  | _ => false

/-- the statement writes nothing -/
def Stmt.isQuiet (stmt : Stmt) : Bool :=
  stmt.event?.isNone && stmt.created?.isNone && stmt.change?.isNone

/-- an update without its times -/
def RowUpdate.change : RowUpdate → Change
  | .lock workerIdentifier _ => .lock workerIdentifier
  | .waiting wait => .waiting wait
  | .runAt time => .runAt time
  | .terminal status => .terminal status
  | .wake _ => .wake
  | .extendLock _ => .extendLock

theorem Change.change_resolve (lockDuration now clock : Int) (c : Change) :
    (c.resolve lockDuration now clock).change = c := by
  cases c <;> rfl

/-- the statement goes through and the transaction goes on -/
def Effect.proceeds : Effect → Bool
  | .blocked => false
  | .raised _ => false
  | .returned => false
  | _ => true

def rowKey (row : WorkflowRecord) : String × String × Option String :=
  (row.workflowId, row.name, row.parentId)

theorem Txn.quiet_before_return (txn : Txn) :
    txn.statements.Pairwise fun a b => b.mayReturn = true → a.isQuiet = true := by
  cases txn with
  | completeWorkflow w result parent => cases parent <;> simp [Txn.statements,
      writeTerminalWorkflowEvent, insertInto, Stmt.mayReturn]
  | failWorkflow w message parent => cases parent <;> simp [Txn.statements,
      writeTerminalWorkflowEvent, insertInto, Stmt.mayReturn]
  | _ => simp [Txn.statements, insertInto, Stmt.mayReturn, Stmt.isQuiet, Stmt.event?,
      Stmt.created?, Stmt.change?]

/-- the foreign key of every inserted event is checked -/
theorem Txn.foreignKey_of_entry {txn : Txn} {e : Entry}
    (h : e ∈ txn.statements.filterMap Stmt.event?) :
    Stmt.foreignKey e.workflowId ∈ txn.statements := by
  have one : ∀ (w : String) (i : Int) (n : String) (ty : EventType) (p : Except PyExc Json),
      Stmt.event? (.insertEvent w i n ty p) = some e → w = e.workflowId := by
    intro w i n ty p he
    cases p with
    | error err => simp [Stmt.event?] at he
    | ok p => simp only [Stmt.event?, Option.some.injEq] at he; rw [← he]
  obtain ⟨stmt, hmem, he⟩ := List.mem_filterMap.mp h
  cases stmt with
  | insertEvent w i n ty p =>
    obtain rfl := one w i n ty p he
    cases txn with
    | completeWorkflow w result parent =>
      cases parent <;> simp_all [Txn.statements, writeTerminalWorkflowEvent, insertInto]
      tauto
    | failWorkflow w message parent =>
      cases parent <;> simp_all [Txn.statements, writeTerminalWorkflowEvent, insertInto]
      tauto
    | createChildWorkflow p c n input i =>
      simp_all [Txn.statements, insertInto]
      tauto
    | _ => simp_all [Txn.statements, insertInto]
  | _ => simp [Stmt.event?] at he

section
variable {Val : Type} {d : Deployment Val} {s s' : Sys Val}

/-! ## what an effect says about its statement -/

theorem Sys.effect_writes {t : Nat} {x : Tx} {stmt : Stmt}
    (h : (s.effect d t x stmt).proceeds = true) :
    (s.effect d t x stmt).event? = stmt.event?
      ∧ (s.effect d t x stmt).row?.map rowKey = stmt.created?
      ∧ (s.effect d t x stmt).update?.map (fun u => (u.1, u.2.change)) = stmt.change? := by
  cases stmt with
  | insertEvent w i n ty payload =>
    cases payload with
    | error e => simp [Sys.effect, Effect.proceeds] at h
    | ok p =>
      simp only [Sys.effect] at h ⊢
      split <;> simp_all [Effect.proceeds, Effect.event?, Effect.row?, Effect.update?,
        Stmt.event?, Stmt.created?, Stmt.change?]
  | notify w => exact ⟨rfl, rfl, rfl⟩
  | update w c =>
    simp only [Sys.effect] at h ⊢
    split
    · simp [Effect.event?, Effect.row?, Effect.update?, Stmt.event?, Stmt.created?,
        Stmt.change?, Change.change_resolve]
    · simp_all [Effect.proceeds]
  | _ =>
    simp only [Sys.effect] at h ⊢
    repeat' split
    all_goals simp_all [Effect.proceeds, Effect.event?, Effect.row?, Effect.update?,
        Stmt.event?, Stmt.created?, Stmt.change?, rowKey, newRow]

/-- a statement that goes through has got its lock -/
theorem Sys.effect_lockable {t : Nat} {x : Tx} {stmt : Stmt} {w : String} {m : LockMode}
    (h : (s.effect d t x stmt).proceeds = true) (hl : stmt.lock? = some (w, m)) :
    s.lockable t w m = true := by
  cases stmt with
  | selectClaimable row =>
    simp only [Stmt.lock?, Option.some.injEq, Prod.mk.injEq] at hl
    obtain ⟨rfl, rfl⟩ := hl
    simp only [Sys.effect] at h
    split at h
    · rename_i hsel
      simp only [Sys.selectable, Bool.and_eq_true] at hsel
      exact hsel.1.2
    · simp [Effect.proceeds] at h
  | foreignKey w' =>
    simp only [Stmt.lock?, Option.some.injEq, Prod.mk.injEq] at hl
    obtain ⟨rfl, rfl⟩ := hl
    simp only [Sys.effect] at h
    repeat' split at h
    all_goals simp_all [Effect.proceeds]
  | selectForUpdate w' =>
    simp only [Stmt.lock?, Option.some.injEq, Prod.mk.injEq] at hl
    obtain ⟨rfl, rfl⟩ := hl
    simp only [Sys.effect] at h
    split at h <;> simp_all [Effect.proceeds]
  | update w' c =>
    simp only [Stmt.lock?, Option.some.injEq, Prod.mk.injEq] at hl
    obtain ⟨rfl, rfl⟩ := hl
    simp only [Sys.effect] at h
    split at h <;> simp_all [Effect.proceeds]
  | _ => simp [Stmt.lock?] at hl

theorem Sys.mayReturn_of_effect {t : Nat} {x : Tx} {stmt : Stmt}
    (h : s.effect d t x stmt = .returned) : stmt.mayReturn = true := by
  cases stmt <;> simp only [Sys.effect] at h <;> repeat' split at h
  all_goals simp_all [Stmt.mayReturn]

/-- the transaction after a statement that went through -/
def Tx.proceed (x : Tx) (stmt : Stmt) (rest : List Stmt) (nextId : Nat) (effect : Effect) : Tx :=
  { x with
    executed := x.executed ++ [stmt], rest := rest,
    inserted := x.inserted ++ effect.event?.toList.map fun entry => ⟨entry, nextId, x.now⟩,
    created := x.created ++ effect.row?.toList,
    updates := x.updates ++ effect.update?.toList }

theorem Tx.after_cases {x x' : Tx} {stmt : Stmt} {rest : List Stmt} {nextId : Nat}
    {effect : Effect} (h : x.after stmt rest nextId effect = some x') :
    (∃ error, effect = .raised error ∧ x' = { x with
        rest := [], inserted := [], created := [], updates := [], result := .error error })
    ∨ (effect = .returned ∧ x' = { x with rest := [], result := .ok false })
    ∨ (effect.proceeds = true ∧ x' = x.proceed stmt rest nextId effect) := by
  cases effect with
  | blocked => simp [Tx.after] at h
  | raised error =>
    simp only [Tx.after, Option.some.injEq] at h
    exact .inl ⟨error, rfl, h.symm⟩
  | returned =>
    simp only [Tx.after, Option.some.injEq] at h
    exact .inr (.inl ⟨rfl, h.symm⟩)
  | none =>
    simp only [Tx.after, Option.some.injEq] at h
    exact .inr (.inr ⟨rfl, h.symm⟩)
  | event entry =>
    simp only [Tx.after, Option.some.injEq] at h
    exact .inr (.inr ⟨rfl, h.symm⟩)
  | row row =>
    simp only [Tx.after, Option.some.injEq] at h
    exact .inr (.inr ⟨rfl, h.symm⟩)
  | update w u =>
    simp only [Tx.after, Option.some.injEq] at h
    exact .inr (.inr ⟨rfl, h.symm⟩)

/-! ## invariants of one transaction -/

/-- every open transaction of every reachable state has a property that holds when it begins and
that its statements keep -/
theorem tx_invariant {ok : Sys Val → Label Val → Prop} {P : Tx → Prop}
    (hstart : ∀ txn now, P (Tx.start txn now))
    (hstep : ∀ (s : Sys Val) (t : Nat) (x x' : Tx) (stmt : Stmt) (rest : List Stmt), P x →
      x.rest = stmt :: rest → x.after stmt rest s.nextId (s.effect d t x stmt) = some x' → P x')
    (hs : Reachable d ok s) {t : Nat} {x : Tx} (hx : s.tx? t = some x) : P x := by
  suffices ∀ t x, s.tx? t = some x → P x from this t x hx
  refine Reach.invariant (I := fun s => ∀ t x, s.tx? t = some x → P x) ?_ ?_ hs
  · intro t x hx
    rw [Sys.initial_tx?] at hx
    cases hx
  · intro s l s' ih _ hl t x hx
    rcases (Step.of_step hl).tx_cases hx with ⟨hx, -⟩ | ⟨_, txn, _, -, -, -, rfl⟩
        | ⟨x₀, stmt, rest, -, hx₀, hrest, hafter⟩
    · exact ih t x hx
    · exact hstart txn s.clock
    · exact hstep s t x₀ x stmt rest (ih t x₀ hx₀) hrest hafter

/-- the writes of a transaction are those of its executed statements, in their order -/
structure Tx.Ok (x : Tx) : Prop where
  order : x.result = .ok true → x.executed ++ x.rest = x.txn.statements
  entries : x.result = .ok true →
    x.inserted.map EventRecord.toEntry = x.executed.filterMap Stmt.event?
  rows : x.result = .ok true → x.created.map rowKey = x.executed.filterMap Stmt.created?
  changes : x.result = .ok true →
    x.updates.map (fun u => (u.1, u.2.change)) = x.executed.filterMap Stmt.change?
  quiet : x.result ≠ .ok true →
    x.rest = [] ∧ x.inserted = [] ∧ x.created = [] ∧ x.updates = []

theorem Tx.ok_start (txn : Txn) (now : Int) : (Tx.start txn now).Ok where
  order _ := rfl
  entries _ := rfl
  rows _ := rfl
  changes _ := rfl
  quiet h := absurd rfl h

theorem Tx.Ok.result_of_rest {x : Tx} (h : x.Ok) {stmt : Stmt} {rest : List Stmt}
    (hrest : x.rest = stmt :: rest) : x.result = .ok true := by
  by_contra hr
  have := (h.quiet hr).1
  rw [hrest] at this
  cases this

theorem Tx.Ok.after {x x' : Tx} (h : x.Ok) {t : Nat} {stmt : Stmt} {rest : List Stmt}
    (hrest : x.rest = stmt :: rest)
    (hx : x.after stmt rest s.nextId (s.effect d t x stmt) = some x') : x'.Ok := by
  have hres := h.result_of_rest hrest
  have horder := h.order hres
  rw [hrest] at horder
  rcases Tx.after_cases hx with ⟨error, -, rfl⟩ | ⟨heff, rfl⟩ | ⟨hp, rfl⟩
  · exact ⟨nofun, nofun, nofun, nofun, fun _ => ⟨rfl, rfl, rfl, rfl⟩⟩
  · -- all statements before a `return False` are quiet
    have hquiet : ∀ a ∈ x.executed, a.isQuiet = true := by
      have hpair := x.txn.quiet_before_return
      rw [← horder, List.pairwise_append] at hpair
      exact fun a ha => hpair.2.2 a ha stmt List.mem_cons_self (Sys.mayReturn_of_effect heff)
    have hnone : ∀ {α : Type} (f : Stmt → Option α),
        (∀ a : Stmt, a.isQuiet = true → f a = none) → x.executed.filterMap f = [] :=
      fun f hf => List.filterMap_eq_nil_iff.mpr fun a ha => hf a (hquiet a ha)
    refine ⟨nofun, nofun, nofun, nofun, fun _ => ⟨rfl, ?_, ?_, ?_⟩⟩
    · refine List.map_eq_nil_iff.mp ((h.entries hres).trans (hnone _ fun a ha => ?_))
      simp_all [Stmt.isQuiet]
    · refine List.map_eq_nil_iff.mp ((h.rows hres).trans (hnone _ fun a ha => ?_))
      simp_all [Stmt.isQuiet]
    · refine List.map_eq_nil_iff.mp ((h.changes hres).trans (hnone _ fun a ha => ?_))
      simp_all [Stmt.isQuiet]
  · obtain ⟨he, hr, hu⟩ := Sys.effect_writes hp
    refine ⟨fun _ => ?_, fun _ => ?_, fun _ => ?_, fun _ => ?_, fun hne => absurd hres hne⟩
    · show (x.executed ++ [stmt]) ++ rest = x.txn.statements
      rw [List.append_assoc, ← horder]
      rfl
    · show (x.inserted ++ _).map EventRecord.toEntry = (x.executed ++ [stmt]).filterMap _
      rw [List.map_append, List.filterMap_append, h.entries hres, he]
      cases hc : stmt.event? <;> simp [hc]
    · show (x.created ++ _).map rowKey = (x.executed ++ [stmt]).filterMap _
      rw [List.map_append, List.filterMap_append, h.rows hres, ← Option.toList_map, hr]
      cases hc : stmt.created? <;> simp [hc]
    · show (x.updates ++ _).map _ = (x.executed ++ [stmt]).filterMap _
      rw [List.map_append, List.filterMap_append, h.changes hres, ← Option.toList_map, hu]
      cases hc : stmt.change? <;> simp [hc]

variable {ok : Sys Val → Label Val → Prop}

theorem tx_ok (hs : Reachable d ok s) {t : Nat} {x : Tx}
    (hx : s.tx? t = some x) : x.Ok :=
  tx_invariant Tx.ok_start (fun _ _ _ _ _ _ h hrest hx' => h.after hrest hx') hs hx

theorem Tx.Ok.executed_of_rest {x : Tx} (h : x.Ok) (hrest : x.rest = [])
    (hres : x.result = .ok true) : x.executed = x.txn.statements := by
  have := h.order hres
  rwa [hrest, List.append_nil] at this

theorem Tx.Ok.mem_inserted {x : Tx} (h : x.Ok) {e : EventRecord} (he : e ∈ x.inserted) :
    x.result = .ok true ∧ e.toEntry ∈ x.executed.filterMap Stmt.event? := by
  by_cases hres : x.result = .ok true
  · refine ⟨hres, ?_⟩
    rw [← h.entries hres]
    exact List.mem_map_of_mem he
  · rw [(h.quiet hres).2.1] at he
    cases he

theorem Tx.Ok.mem_created {x : Tx} (h : x.Ok) {row : WorkflowRecord} (hr : row ∈ x.created) :
    x.result = .ok true ∧ rowKey row ∈ x.executed.filterMap Stmt.created? := by
  by_cases hres : x.result = .ok true
  · refine ⟨hres, ?_⟩
    rw [← h.rows hres]
    exact List.mem_map_of_mem hr
  · rw [(h.quiet hres).2.2.1] at hr
    cases hr

theorem Tx.Ok.mem_updates {x : Tx} (h : x.Ok) {u : String × RowUpdate} (hu : u ∈ x.updates) :
    x.result = .ok true ∧ Stmt.update u.1 u.2.change ∈ x.executed := by
  by_cases hres : x.result = .ok true
  · refine ⟨hres, ?_⟩
    have hmem : (u.1, u.2.change) ∈ x.executed.filterMap Stmt.change? := by
      rw [← h.changes hres]
      exact List.mem_map_of_mem (f := fun u : String × RowUpdate => (u.1, u.2.change)) hu
    obtain ⟨stmt, hstmt, hc⟩ := List.mem_filterMap.mp hmem
    cases stmt <;> simp only [Stmt.change?, Option.some.injEq, Prod.mk.injEq, reduceCtorEq] at hc
    obtain ⟨h1, h2⟩ := hc
    rwa [h1, h2] at hstmt
  · rw [(h.quiet hres).2.2.2] at hu
    cases hu

theorem Tx.Ok.executed_subset {x : Tx} (h : x.Ok) (hres : x.result = .ok true) {stmt : Stmt}
    (hs : stmt ∈ x.executed) : stmt ∈ x.txn.statements := by
  rw [← h.order hres]
  exact List.mem_append_left _ hs

theorem Tx.Ok.mem_entries {x : Tx} (h : x.Ok) {e : EventRecord} (he : e ∈ x.inserted) :
    e.toEntry ∈ x.txn.statements.filterMap Stmt.event? := by
  obtain ⟨hres, hmem⟩ := h.mem_inserted he
  obtain ⟨stmt, hstmt, hev⟩ := List.mem_filterMap.mp hmem
  exact List.mem_filterMap.mpr ⟨stmt, h.executed_subset hres hstmt, hev⟩

theorem statement_of_executed (hs : Reachable d ok s) {t : Nat} {x : Tx} (hx : s.tx? t = some x)
    {stmt : Stmt} (hmem : stmt ∈ x.executed) : stmt ∈ x.txn.statements := by
  refine (tx_invariant (P := fun x => x.Ok ∧ ∀ stmt ∈ x.executed, stmt ∈ x.txn.statements)
    (fun txn now => ⟨Tx.ok_start txn now, nofun⟩) ?_ hs hx).2 stmt hmem
  intro s t x x' stmt rest ⟨hok, ih⟩ hrest hafter
  refine ⟨hok.after hrest hafter, ?_⟩
  rcases Tx.after_cases hafter with ⟨_, -, rfl⟩ | ⟨-, rfl⟩ | ⟨-, rfl⟩
  · exact ih
  · exact ih
  · intro a ha
    rcases List.mem_append.mp ha with ha | ha
    · exact ih a ha
    · rw [List.mem_singleton.mp ha]
      show stmt ∈ x.txn.statements
      rw [← hok.order (hok.result_of_rest hrest), hrest]
      exact List.mem_append_right _ List.mem_cons_self

theorem payload_of_executed (hs : Reachable d ok s) {t : Nat} {x : Tx} (hx : s.tx? t = some x)
    {w : String} {i : Int} {n : String} {ty : EventType} {error : PyExc} :
    Stmt.insertEvent w i n ty (.error error) ∉ x.executed := by
  refine tx_invariant (P := fun x => Stmt.insertEvent w i n ty (.error error) ∉ x.executed)
    (fun txn now => nofun) ?_ hs hx
  intro s t x x' stmt rest ih _ hafter
  rcases Tx.after_cases hafter with ⟨_, -, rfl⟩ | ⟨-, rfl⟩ | ⟨hp, rfl⟩
  · exact ih
  · exact ih
  · intro hmem
    rcases List.mem_append.mp hmem with hmem | hmem
    · exact ih hmem
    · obtain rfl := List.mem_singleton.mp hmem
      simp [Sys.effect, Effect.proceeds] at hp

/-! ## locks -/

theorem Tx.mem_locks {x : Tx} {stmt : Stmt} {l : String × LockMode} (hs : stmt ∈ x.executed)
    (hl : stmt.lock? = some l) : l ∈ x.locks :=
  List.mem_filterMap.mpr ⟨stmt, hs, hl⟩

theorem Tx.Ok.lock_of_update {x : Tx} (h : x.Ok) {u : String × RowUpdate} (hu : u ∈ x.updates) :
    (u.1, .noKeyUpdate) ∈ x.locks :=
  Tx.mem_locks (h.mem_updates hu).2 rfl

theorem Tx.Ok.lock_of_inserted {x : Tx} (h : x.Ok) (hrest : x.rest = []) {e : EventRecord}
    (he : e ∈ x.inserted) : (e.workflowId, .keyShare) ∈ x.locks := by
  obtain ⟨hres, hmem⟩ := h.mem_inserted he
  rw [h.executed_of_rest hrest hres] at hmem
  have hfk := Txn.foreignKey_of_entry hmem
  rw [← h.executed_of_rest hrest hres] at hfk
  exact Tx.mem_locks hfk rfl

/-- two open transactions hold no conflicting locks -/
theorem locks_compatible {ok : Sys Val → Label Val → Prop} (hs : Reachable d ok s)
    {t u : Nat} (htu : t ≠ u) {x y : Tx} (hx : s.tx? t = some x) (hy : s.tx? u = some y)
    {w : String} {m m' : LockMode} (hm : (w, m) ∈ x.locks) (hm' : (w, m') ∈ y.locks) :
    m.conflicts m' = false := by
  suffices ∀ t u x y w m m', t ≠ u → s.tx? t = some x → s.tx? u = some y → (w, m) ∈ x.locks →
      (w, m') ∈ y.locks → m.conflicts m' = false from
    this t u x y w m m' htu hx hy hm hm'
  -- a step of `v` keeps the locks of all others, and a new lock is compatible with theirs
  refine Reach.invariant (I := fun s : Sys Val => ∀ t u x y w m m', t ≠ u → s.tx? t = some x →
    s.tx? u = some y → (w, m) ∈ x.locks → (w, m') ∈ y.locks → m.conflicts m' = false) ?_ ?_ hs
  · intro t u x y w m m' _ hx
    rw [Sys.initial_tx?] at hx
    cases hx
  · intro s l s' ih _ hl t u x y w m m' htu hx hy hm hm'
    have hstep := Step.of_step hl
    -- the locks of a transaction after a step are old, or there is exactly one new one
    have old : ∀ v z w m, s'.tx? v = some z → (w, m) ∈ z.locks →
        (∃ z₀, s.tx? v = some z₀ ∧ (w, m) ∈ z₀.locks)
          ∨ (l = .execute v ∧ s.lockable v w m = true) := by
      intro v z w m hz hmem
      rcases hstep.tx_cases hz with ⟨hz, -⟩ | ⟨_, _, _, -, -, -, rfl⟩
          | ⟨z₀, stmt, rest, hl', hz₀, -, hafter⟩
      · exact .inl ⟨z, hz, hmem⟩
      · simp [Tx.locks, Tx.start] at hmem
      · rcases Tx.after_cases hafter with ⟨_, -, rfl⟩ | ⟨-, rfl⟩ | ⟨hp, rfl⟩
        · exact .inl ⟨z₀, hz₀, hmem⟩
        · exact .inl ⟨z₀, hz₀, hmem⟩
        · have happ : (w, m) ∈ (z₀.executed ++ [stmt]).filterMap Stmt.lock? := hmem
          rw [List.filterMap_append, List.mem_append] at happ
          rcases happ with hold | hnew
          · exact .inl ⟨z₀, hz₀, hold⟩
          · obtain ⟨stmt', hmem', hlock⟩ := List.mem_filterMap.mp hnew
            obtain rfl := List.mem_singleton.mp hmem'
            exact .inr ⟨hl', Sys.effect_lockable hp hlock⟩
    rcases old t x w m hx hm with ⟨x₀, hx₀, hm₀⟩ | ⟨hlt, hlock⟩
    · rcases old u y w m' hy hm' with ⟨y₀, hy₀, hm'₀⟩ | ⟨-, hlock⟩
      · exact ih t u x₀ y₀ w m m' htu hx₀ hy₀ hm₀ hm'₀
      · rw [LockMode.conflicts_comm]
        exact Sys.lockable_iff.mp hlock t x₀ m htu hx₀ hm₀
    · rcases old u y w m' hy hm' with ⟨y₀, hy₀, hm'₀⟩ | ⟨hlu, -⟩
      · exact Sys.lockable_iff.mp hlock u y₀ m' (Ne.symm htu) hy₀ hm'₀
      · rw [hlt] at hlu
        exact absurd (Label.execute.inj hlu) htu

/-- while a transaction holds a row FOR UPDATE no other one commits a write to the row or to its
log -/
theorem frame_of_forUpdate {ok : Sys Val → Label Val → Prop} (hs : Reachable d ok s)
    {t u : Nat} (htu : t ≠ u) {x y : Tx} (hx : s.tx? t = some x) (hy : s.tx? u = some y)
    {w : String} (hw : (w, .forUpdate) ∈ y.locks) :
    (∀ v ∈ x.updates, v.1 ≠ w) ∧ (x.rest = [] → ∀ e ∈ x.inserted, e.workflowId ≠ w) := by
  have hok := tx_ok hs hx
  constructor
  · intro v hv hvw
    have hl := hok.lock_of_update hv
    rw [hvw] at hl
    have := locks_compatible hs htu hx hy hl hw
    simp [LockMode.conflicts] at this
  · intro hrest e he hew
    have hl := hok.lock_of_inserted hrest he
    rw [hew] at hl
    have := locks_compatible hs htu hx hy hl hw
    simp [LockMode.conflicts] at this

end

end TemporalLight
