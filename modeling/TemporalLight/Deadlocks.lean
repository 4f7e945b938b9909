import TemporalLight.Children
import Mathlib.Logic.Relation

/-!
# The transactions of the engine never deadlock

A statement waits for the transactions that hold what it needs: a row lock that conflicts with its
own, or a key that they have inserted and not yet committed.  The claim skips locked rows and waits
for nobody.

Every function locks rows from the child to the parent, and on one row first KEY SHARE or
FOR UPDATE, then NO KEY UPDATE (`Task.Issues.lock_order`).  The weight of a waiting transaction is
the depth of the row it waits for, twice, and one more for FOR UPDATE; it decreases along two edges
of the wait-for graph (`waitsFor_weight`).

* `acyclic_of_rank`  a graph whose paths of two edges decrease a rank has no cycle
* `never_deadlocks`  the wait-for graph of every reachable state is acyclic
-/

namespace TemporalLight
open Runs

theorem acyclic_of_rank {α : Type} {r : α → α → Prop} (rank : α → Nat)
    (h : ∀ a b c, r a b → r b c → rank b < rank a) (a : α) : ¬ Relation.TransGen r a a := by
  have hlt : ∀ {a b}, Relation.TransGen r a b → ∀ c, r b c → rank b < rank a := by
    intro a b hab
    induction hab with
    | single hab => exact fun c hbc => h _ _ c hab hbc
    | tail _ hbc ih => exact fun c hcd => (h _ _ c hbc hcd).trans (ih _ hbc)
  intro ha
  obtain ⟨b, hab, -⟩ := Relation.TransGen.head'_iff.mp ha
  exact absurd (hlt ha b hab) (lt_irrefl _)

/-! ## the wait-for graph -/

/-- the transaction holds what the statement needs -/
def Tx.blocks (y : Tx) : Stmt → Bool
  | .insertWorkflow workflowId _ => y.created.any fun row => row.workflowId == workflowId
  | .insertChildWorkflow workflowId _ _ => y.created.any fun row => row.workflowId == workflowId
  -- SKIP LOCKED
  | .selectClaimable _ => false
  | stmt => stmt.lock?.any fun l => y.locks.any fun l' => l'.1 == l.1 && l.2.conflicts l'.2

section
variable {Val : Type} {d : Deployment Val} {s s' : Sys Val} {ok : Sys Val → Label Val → Prop}

/-- the next statement of thread `t` has to wait until the transaction of thread `u` has ended -/
def Sys.waitsFor (d : Deployment Val) (s : Sys Val) (t u : Nat) : Prop :=
  t ≠ u ∧ ∃ x y stmt rest, s.tx? t = some x ∧ x.rest = stmt :: rest
    ∧ s.effect d t x stmt = .blocked ∧ s.tx? u = some y ∧ y.blocks stmt = true

theorem Tx.blocks_of_lock {y : Tx} {stmt : Stmt} (h : y.blocks stmt = true)
    (hnone : stmt.created? = none) : ∃ w m m', stmt.lock? = some (w, m) ∧ (w, m') ∈ y.locks
      ∧ m.conflicts m' = true := by
  have hlock : ∀ w m, stmt.lock? = some (w, m) →
      (stmt.lock?.any fun l => y.locks.any fun l' => l'.1 == l.1 && l.2.conflicts l'.2) = true →
      ∃ w m m', stmt.lock? = some (w, m) ∧ (w, m') ∈ y.locks ∧ m.conflicts m' = true := by
    intro w m hl hany
    rw [hl, Option.any_some, List.any_eq_true] at hany
    obtain ⟨⟨w', m'⟩, hmem, hm⟩ := hany
    rw [Bool.and_eq_true, beq_iff_eq] at hm
    obtain ⟨rfl, hm⟩ := hm
    exact ⟨w', m, m', hl, hmem, hm⟩
  cases stmt with
  | insertWorkflow w n => cases hnone
  | insertChildWorkflow w n p => cases hnone
  | insertEvent => cases h
  | foreignKey w => exact hlock _ _ rfl h
  | selectForUpdate w => exact hlock _ _ rfl h
  | returnIfAnswered => cases h
  | selectClaimable row => cases h
  | update w c => exact hlock _ _ rfl h
  | notify => cases h

theorem Tx.blocks_of_created {y : Tx} {stmt : Stmt} (h : y.blocks stmt = true)
    {key : String × String × Option String} (hkey : stmt.created? = some key) :
    ∃ row ∈ y.created, row.workflowId = key.1 := by
  cases stmt with
  | insertWorkflow w n =>
    obtain rfl := Option.some.inj hkey
    simpa [Tx.blocks] using h
  | insertChildWorkflow w n p =>
    obtain rfl := Option.some.inj hkey
    simpa [Tx.blocks] using h
  | _ => cases hkey

/-- a statement that has to wait, waits for somebody -/
theorem waits_of_blocked {t : Nat} {x : Tx} {stmt : Stmt} {rest : List Stmt}
    (hx : s.tx? t = some x) (hrest : x.rest = stmt :: rest)
    (hblocked : s.effect d t x stmt = .blocked) :
    (∃ row, stmt = .selectClaimable row) ∨ ∃ u, s.waitsFor d t u := by
  have hlock : ∀ w m, stmt.lock? = some (w, m) → s.lockable t w m = false →
      (∀ y : Tx, y.blocks stmt
        = stmt.lock?.any fun l => y.locks.any fun l' => l'.1 == l.1 && l.2.conflicts l'.2) →
      ∃ u, s.waitsFor d t u := by
    intro w m hl hfalse hblocks
    have hno := mt Sys.lockable_iff.mpr (by rw [hfalse]; exact Bool.false_ne_true)
    push Not at hno
    obtain ⟨u, y, m', hut, hy, hmem, hm⟩ := hno
    refine ⟨u, hut.symm, x, y, stmt, rest, hx, hrest, hblocked, hy, ?_⟩
    rw [hblocks, hl, Option.any_some, List.any_eq_true]
    exact ⟨(w, m'), hmem, by simp [Bool.eq_true_of_not_eq_false hm]⟩
  have hkey : ∀ w, s.keyFree t w = false →
      (∀ y : Tx, y.blocks stmt = y.created.any fun row => row.workflowId == w) →
      ∃ u, s.waitsFor d t u := by
    intro w hfalse hblocks
    have hno := mt Sys.keyFree_iff.mpr (by rw [hfalse]; exact Bool.false_ne_true)
    push Not at hno
    obtain ⟨u, y, row, hut, hy, hmem, hrow⟩ := hno
    refine ⟨u, hut.symm, x, y, stmt, rest, hx, hrest, hblocked, hy, ?_⟩
    rw [hblocks, List.any_eq_true]
    exact ⟨row, hmem, by simp [hrow]⟩
  have hif : ∀ {b : Bool} {e : Effect}, (if b then e else .blocked) = .blocked → e ≠ .blocked →
      b = false := by
    intro b e h he
    cases b with
    | false => rfl
    | true => exact absurd h he
  cases stmt with
  | selectClaimable row => exact .inl ⟨row, rfl⟩
  | insertWorkflow w n =>
    refine .inr (hkey w ?_ fun _ => rfl)
    simp only [Sys.effect] at hblocked
    split at hblocked
    · cases hblocked
    · exact hif hblocked fun he => by cases he
  | insertChildWorkflow w n p =>
    refine .inr (hkey w ?_ fun _ => rfl)
    simp only [Sys.effect] at hblocked
    split at hblocked
    · cases hblocked
    · exact hif hblocked fun he => by cases he
  | insertEvent w i n ty payload =>
    simp only [Sys.effect] at hblocked
    split at hblocked
    · cases hblocked
    · split at hblocked <;> cases hblocked
  | foreignKey w =>
    refine .inr (hlock w _ rfl ?_ fun _ => rfl)
    simp only [Sys.effect] at hblocked
    split at hblocked
    · cases hblocked
    · exact hif hblocked fun he => by cases he
  | selectForUpdate w => exact .inr (hlock w _ rfl (hif hblocked fun he => by cases he) fun _ => rfl)
  | returnIfAnswered w wait =>
    simp only [Sys.effect] at hblocked
    split at hblocked <;> cases hblocked
  | update w change => exact .inr (hlock w _ rfl (hif hblocked fun he => by cases he) fun _ => rfl)
  | notify w => cases hblocked

/-! ## the order of the locks -/

/-- `b` comes after `a` in a function that inserts rows with these keys: `b` inserts no row, and the
lock it takes is KEY SHARE on a row of the function's own, or on a row above the one of `a`, or
comes after KEY SHARE or FOR UPDATE on the same row -/
def LockOrder (keys : List String) (a b : Stmt) : Prop :=
  b.created? = none ∧ ∀ w m, b.lock? = some (w, m) →
    (m = .keyShare ∧ w ∈ keys)
    ∨ ((∀ key, a.created? = some key → w.length < key.1.length)
      ∧ ∀ w' m', a.lock? = some (w', m') → w.length < w'.length
        ∨ (w = w' ∧ (m' = .forUpdate ∨ (m' = .keyShare ∧ m ≠ .forUpdate))))

def Txn.keys (txn : Txn) : List String := (txn.statements.filterMap Stmt.created?).map (·.1)

theorem length_lt_childWorkflowId (p : String) (i : Nat) :
    p.length < (childWorkflowId p i).length := by
  have : ":".length = 1 := rfl
  unfold childWorkflowId
  rw [String.length_append, String.length_append]
  omega

theorem writeTerminal_lock_order {w : String} {ty : EventType}
    {outcome : Except PyExc (String × Json)} {status : WorkflowStatus}
    {parentInfo : Option ParentInfo} {childStatus : String}
    (hparent : ∀ parent, parentInfo = some parent → parent.workflowId.length < w.length) :
    (writeTerminalWorkflowEvent w ty outcome status parentInfo childStatus).Pairwise
      (LockOrder []) := by
  cases parentInfo with
  | none => simp [writeTerminalWorkflowEvent, insertInto, LockOrder, Stmt.created?, Stmt.lock?]
  | some parent =>
    have := hparent parent rfl
    simp [writeTerminalWorkflowEvent, insertInto, LockOrder, Stmt.created?, Stmt.lock?, this]

theorem Task.Issues.lock_order (hs : Reachable d ok s) {task : Task Val} {txn : Txn}
    (h : task.Issues s.loaded txn) : txn.statements.Pairwise (LockOrder txn.keys) := by
  have hterminal : ∀ {r : Run Val} {parentInfo : Option ParentInfo}, ParentOk r.workflowId s.loaded
      parentInfo → ∀ parent, parentInfo = some parent →
      parent.workflowId.length < r.workflowId.length := by
    intro r parentInfo hparent parent hp
    obtain ⟨-, i, hw⟩ := parent_of_run hs hparent hp
    rw [hw]
    exact length_lt_childWorkflowId _ i
  have hmono : ∀ {l : List Stmt} {keys : List String}, l.Pairwise (LockOrder []) →
      l.Pairwise (LockOrder keys) := fun h => h.imp fun ⟨hb, hl⟩ =>
    ⟨hb, fun w m hm => (hl w m hm).imp_left fun h => absurd h.2 List.not_mem_nil⟩
  rcases h.cases with ⟨worker, row, -, rfl⟩ | ⟨r, -, hrun⟩ | ⟨id, name, input, c, -, rfl⟩
      | ⟨w, T, payload, c, -, rfl⟩ | ⟨w, c, -, rfl⟩
  · simp [Txn.statements, LockOrder, Stmt.created?, Stmt.lock?]
  · cases txn with
    | createChildWorkflow p c n input i =>
      obtain ⟨rfl, rfl⟩ := hrun
      have := length_lt_childWorkflowId r.workflowId i
      simp [Txn.statements, Txn.keys, insertInto, LockOrder, Stmt.created?, Stmt.lock?, this]
    | markWorkflowWaiting w wait => simp [Txn.statements, LockOrder, Stmt.created?, Stmt.lock?]
    | updateWorkflowRunAt w time => simp [Txn.statements]
    | completeWorkflow w result parentInfo =>
      obtain ⟨rfl, hparent⟩ := hrun
      exact hmono (writeTerminal_lock_order (hterminal hparent))
    | failWorkflow w message parentInfo =>
      obtain ⟨rfl, hparent⟩ := hrun
      exact hmono (writeTerminal_lock_order (hterminal hparent))
    | insertEvent w i n ty p =>
      simp [Txn.statements, insertInto, LockOrder, Stmt.created?, Stmt.lock?]
    | _ => cases hrun
  · simp [Txn.statements, Txn.keys, insertInto, LockOrder, Stmt.created?, Stmt.lock?]
  · simp [Txn.statements, insertInto, LockOrder, Stmt.created?, Stmt.lock?]
  · simp [Txn.statements]

/-- only a committed row is locked FOR UPDATE -/
theorem row_of_forUpdate (hs : Reachable d ok s) {t : Nat} {x : Tx} (hx : s.tx? t = some x)
    {w : String} (hw : (w, .forUpdate) ∈ x.locks) : (s.row? w).isSome = true := by
  obtain ⟨stmt, hmem, hlock⟩ := List.mem_filterMap.mp hw
  have hstmt := statement_of_executed hs hx hmem
  cases stmt <;> simp only [Stmt.lock?, Option.some.injEq, Prod.mk.injEq, reduceCtorEq, and_false,
    and_true] at hlock
  case selectClaimable row =>
    subst hlock
    rw [(selected_row hs hx hmem).1]
    rfl
  case selectForUpdate w' =>
    subst hlock
    obtain ⟨task, alive, hth⟩ := Sys.tx?_eq_some hx
    rcases (issues_of_thread hs hth rfl).cases with ⟨worker, row, -, htxn⟩ | ⟨r, htask, hrun⟩
        | ⟨id, name, input, c, -, htxn⟩ | ⟨w, T, payload, c, -, htxn⟩ | ⟨w, c, -, htxn⟩
    · simp [htxn, Txn.statements] at hstmt
    · obtain rfl : task = .run r := htask
      cases htxn : x.txn with
      | markWorkflowWaiting w wait =>
        rw [htxn] at hstmt hrun
        obtain ⟨rfl, -⟩ := hrun
        obtain rfl : w' = r.workflowId := by simpa [Txn.statements] using hstmt
        exact row_of_run hs (Sys.run?_eq hth)
      | completeWorkflow w result parentInfo =>
        rw [htxn] at hstmt
        cases parentInfo <;> simp [Txn.statements, writeTerminalWorkflowEvent, insertInto] at hstmt
      | failWorkflow w message parentInfo =>
        rw [htxn] at hstmt
        cases parentInfo <;> simp [Txn.statements, writeTerminalWorkflowEvent, insertInto] at hstmt
      | _ =>
        rw [htxn] at hstmt
        simp [Txn.statements, insertInto] at hstmt
    · simp [htxn, Txn.statements, insertInto] at hstmt
    · simp [htxn, Txn.statements, insertInto] at hstmt
    · simp [htxn, Txn.statements] at hstmt

/-! ## no cycle -/

/-- twice the depth of the row that a statement needs, and one more for FOR UPDATE -/
def Stmt.weight (stmt : Stmt) : Nat :=
  match stmt.created?, stmt.lock? with
  | some key, _ => 2 * key.1.length
  | none, some (w, m) => 2 * w.length + if m = .forUpdate then 1 else 0
  | none, none => 0

def Sys.weight (s : Sys Val) (t : Nat) : Nat :=
  ((s.tx? t).bind fun x => x.rest.head?).elim 0 Stmt.weight

theorem Stmt.weight_of_lock {stmt : Stmt} {w : String} {m : LockMode} (hnone : stmt.created? = none)
    (hl : stmt.lock? = some (w, m)) :
    stmt.weight = 2 * w.length + if m = .forUpdate then 1 else 0 := by
  simp [Stmt.weight, hnone, hl]

/-- what the next statement `b` of a waiting transaction needs, against what it has executed -/
theorem lock_of_waiting (hs : Reachable d ok s) {u v : Nat} {y z : Tx} {b : Stmt}
    {rest : List Stmt} (hy : s.tx? u = some y) (hrest : y.rest = b :: rest) (hz : s.tx? v = some z)
    (hblocks : z.blocks b = true) {c : Stmt} (hc : c ∈ y.executed) :
    ∃ w m m', b.created? = none ∧ b.lock? = some (w, m) ∧ (w, m') ∈ z.locks
      ∧ m.conflicts m' = true
      ∧ (∀ key, c.created? = some key → w.length < key.1.length)
      ∧ ∀ w' m', c.lock? = some (w', m') → w.length < w'.length
        ∨ (w = w' ∧ (m' = .forUpdate ∨ (m' = .keyShare ∧ m ≠ .forUpdate))) := by
  obtain ⟨task, alive, hth⟩ := Sys.tx?_eq_some hy
  have hok := tx_ok hs hy
  have hres := hok.result_of_rest hrest
  have hstatements := hok.order hres
  rw [hrest] at hstatements
  have horder := (issues_of_thread hs hth rfl).lock_order hs
  rw [← hstatements, List.pairwise_append, List.pairwise_cons] at horder
  obtain ⟨-, ⟨hafter, -⟩, hbefore⟩ := horder
  obtain ⟨hnone, h⟩ := hbefore c hc b List.mem_cons_self
  obtain ⟨w, m, m', hl, hmem, hm⟩ := Tx.blocks_of_lock hblocks hnone
  rcases h w m hl with ⟨rfl, hown⟩ | ⟨hkeys, hlocks⟩
  · -- the row is new, so nobody can have locked it FOR UPDATE
    exfalso
    obtain ⟨key, hkey, rfl⟩ := List.mem_map.mp hown
    obtain ⟨i, hi, hcreated⟩ := List.mem_filterMap.mp hkey
    rw [← hstatements] at hi
    have hexecuted : i ∈ y.executed := by
      rcases List.mem_append.mp hi with hi | hi
      · exact hi
      · rcases List.mem_cons.mp hi with rfl | hi
        · rw [hnone] at hcreated
          cases hcreated
        · rw [(hafter i hi).1] at hcreated
          cases hcreated
    have hinserted : key ∈ y.created.map rowKey := by
      rw [hok.rows hres]
      exact List.mem_filterMap.mpr ⟨i, hexecuted, hcreated⟩
    obtain ⟨row, hrow, rfl⟩ := List.mem_map.mp hinserted
    have hfresh := (keys_ok hs).fresh u y hy row hrow
    obtain rfl : m' = .forUpdate := by
      cases m' <;> first | rfl | cases hm
    have hsome := row_of_forUpdate hs hz hmem
    rw [show (rowKey row).1 = row.workflowId from rfl, hfresh] at hsome
    cases hsome
  · exact ⟨w, m, m', hnone, hl, hmem, hm, hkeys, hlocks⟩

theorem waitsFor_weight (hs : Reachable d ok s) {t u v : Nat} (htu : s.waitsFor d t u)
    (huv : s.waitsFor d u v) : s.weight u < s.weight t := by
  obtain ⟨-, x, y, a, restx, hx, hrestx, -, hy, hblocks⟩ := htu
  obtain ⟨huv, y', z, b, resty, hy', hresty, -, hz, hblocks'⟩ := huv
  obtain rfl := Option.some.inj (hy.symm.trans hy')
  have hwx : s.weight t = a.weight := by simp [Sys.weight, hx, hrestx]
  have hwy : s.weight u = b.weight := by simp [Sys.weight, hy, hresty]
  rw [hwx, hwy]
  cases hcreated : a.created? with
  | some key =>
    -- `t` waits for a key that `u` has inserted
    obtain ⟨row, hrow, hkey⟩ := Tx.blocks_of_created hblocks hcreated
    obtain ⟨c, hc, hck⟩ := List.mem_filterMap.mp ((tx_ok hs hy).mem_created hrow).2
    obtain ⟨w, m, m', hnone, hl, -, -, hkeys, -⟩ := lock_of_waiting hs hy hresty hz hblocks' hc
    have hlt := hkeys _ hck
    rw [show (rowKey row).1 = row.workflowId from rfl, hkey] at hlt
    rw [Stmt.weight_of_lock hnone hl, show a.weight = 2 * key.1.length by
      simp [Stmt.weight, hcreated]]
    split <;> omega
  | none =>
    -- `t` waits for a row that `u` has locked
    obtain ⟨wa, ma, mc, hla, hmem, hconflict⟩ := Tx.blocks_of_lock hblocks hcreated
    obtain ⟨c, hc, hlc⟩ := List.mem_filterMap.mp hmem
    obtain ⟨w, m, m', hnone, hl, hmem', hm, -, hlocks⟩ :=
      lock_of_waiting hs hy hresty hz hblocks' hc
    rw [Stmt.weight_of_lock hnone hl, Stmt.weight_of_lock hcreated hla]
    rcases hlocks wa mc hlc with hlt | ⟨rfl, hsame⟩
    · split <;> split <;> omega
    · have hcompatible := locks_compatible hs huv hy hz hmem hmem'
      rcases hsame with rfl | ⟨rfl, hne⟩
      · cases m' <;> cases hcompatible
      · -- `u` holds KEY SHARE and needs NO KEY UPDATE, so `t` needs FOR UPDATE
        obtain rfl : ma = .forUpdate := by
          cases ma <;> first | rfl | cases hconflict
        rw [if_neg hne, if_pos rfl]
        omega

/-- **The wait-for graph is acyclic.** -/
theorem never_deadlocks (hs : Reachable d (fun _ _ => True) s) :
    (∀ t, ¬ Relation.TransGen (s.waitsFor d) t t)
    ∧ ∀ t x stmt rest, s.tx? t = some x → x.rest = stmt :: rest →
      s.effect d t x stmt = .blocked → (∃ row, stmt = .selectClaimable row)
        ∨ ∃ u, s.waitsFor d t u :=
  ⟨acyclic_of_rank s.weight fun _ _ _ htu huv => waitsFor_weight hs htu huv,
    fun _ _ _ _ hx hrest hblocked => waits_of_blocked hx hrest hblocked⟩

end

/-! ## three transactions in a chain -/

def Sys.isWaitingFor (d : Deployment Json) (s : Sys Json) (t u : Nat) : Bool :=
  t != u && (s.tx? t).any fun x => match x.rest with
    | stmt :: _ => (match s.effect d t x stmt with
      | .blocked => (s.tx? u).any (Tx.blocks · stmt)
      | _ => false)
    | [] => false

theorem Sys.waitsFor_of_isWaitingFor {d : Deployment Json} {s : Sys Json} {t u : Nat}
    (h : s.isWaitingFor d t u = true) : s.waitsFor d t u := by
  unfold Sys.isWaitingFor at h
  rw [Bool.and_eq_true, bne_iff_ne, Option.any_eq_true] at h
  obtain ⟨htu, x, hx, h⟩ := h
  split at h
  · rename_i stmt rest hrest
    split at h
    · rename_i hblocked
      obtain ⟨y, hy, hblocks⟩ := (Option.any_eq_true _ _).mp h
      exact ⟨htu, x, y, stmt, rest, hx, hrest, hblocked, hy, hblocks⟩
    · cases h
  · cases h

/-- The parent has recorded its own completion and not yet committed, the child ends and needs the
parent's row, and a signal needs the child's row. -/
def endsTogether : List (Label Json) :=
  createsChild ++ [.advance 1, .begin 1, .execute 1, .execute 1, .execute 1,
    .claim "B" (newRow "w:0" "child" (some "w") 0)] ++ transact 2 2
    ++ [.read 2, .advance 2, .begin 2] ++ List.replicate 5 (.execute 2)
    ++ [.request (.sendSignal "w:0" "T" .null), .read 3, .begin 3, .execute 3, .execute 3]

theorem never_deadlocks_once : ∃ s : Sys Json, s.waitsFor spawns 3 2 ∧ s.waitsFor spawns 2 1
    ∧ ∀ t, ¬ Relation.TransGen (s.waitsFor spawns) t t := by
  have hrun : (follow (Sys.step spawns) (fun _ _ => true) Sys.initial endsTogether).any
      (fun s => s.isWaitingFor spawns 3 2 && s.isWaitingFor spawns 2 1) = true := by
    decide +kernel
  obtain ⟨s, hs, h⟩ := Reach.exists_of_follow _ hrun
  obtain ⟨h₃, h₂⟩ := Bool.and_eq_true_iff.mp h
  exact ⟨s, Sys.waitsFor_of_isWaitingFor h₃, Sys.waitsFor_of_isWaitingFor h₂,
    (never_deadlocks (hs.mono fun _ _ _ => trivial)).1⟩

end TemporalLight
