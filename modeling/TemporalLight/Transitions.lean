import TemporalLight.System

/-!
# What a step can do

`Step` lists the steps with their guards, one constructor for each label, and `Step.of_step` says
that `Sys.step` does nothing else.  The rest is the interface to the list of threads: which thread
a step has changed, and what the tables are after a commit.
-/

namespace TemporalLight
open Runs

section
variable {Val : Type} {d : Deployment Val} {s s' : Sys Val}

/-! ## threads -/

@[simp] theorem Sys.setThread_clock (t : Nat) (th : Thread Val) :
    (s.setThread t th).clock = s.clock := rfl
@[simp] theorem Sys.setThread_nextId (t : Nat) (th : Thread Val) :
    (s.setThread t th).nextId = s.nextId := rfl
@[simp] theorem Sys.setThread_workflows (t : Nat) (th : Thread Val) :
    (s.setThread t th).workflows = s.workflows := rfl
@[simp] theorem Sys.setThread_events (t : Nat) (th : Thread Val) :
    (s.setThread t th).events = s.events := rfl
@[simp] theorem Sys.setThread_lease (t : Nat) (th : Thread Val) :
    (s.setThread t th).lease = s.lease := rfl
@[simp] theorem Sys.setThread_waits (t : Nat) (th : Thread Val) :
    (s.setThread t th).waits = s.waits := rfl
@[simp] theorem Sys.setThread_loaded (t : Nat) (th : Thread Val) :
    (s.setThread t th).loaded = s.loaded := rfl
@[simp] theorem Sys.setThread_row? (t : Nat) (th : Thread Val) (w : String) :
    (s.setThread t th).row? w = s.row? w := rfl
@[simp] theorem Sys.setThread_history (t : Nat) (th : Thread Val) (w : String) :
    (s.setThread t th).history w = s.history w := rfl

theorem Sys.initial_tx? (t : Nat) : (Sys.initial : Sys Val).tx? t = none := rfl
theorem Sys.initial_row? (w : String) : (Sys.initial : Sys Val).row? w = none := rfl

@[simp] theorem Sys.spawn_row? (task : Task Val) (w : String) :
    (s.spawn task).row? w = s.row? w := rfl
@[simp] theorem Sys.spawn_history (task : Task Val) (w : String) :
    (s.spawn task).history w = s.history w := rfl

@[simp] theorem Sys.noteLoad_threads (q : Call Val) : (s.noteLoad q).threads = s.threads := by
  cases q <;> rfl
@[simp] theorem Sys.noteLoad_clock (q : Call Val) : (s.noteLoad q).clock = s.clock := by
  cases q <;> rfl
@[simp] theorem Sys.noteLoad_nextId (q : Call Val) : (s.noteLoad q).nextId = s.nextId := by
  cases q <;> rfl
@[simp] theorem Sys.noteLoad_workflows (q : Call Val) :
    (s.noteLoad q).workflows = s.workflows := by
  cases q <;> rfl
@[simp] theorem Sys.noteLoad_events (q : Call Val) : (s.noteLoad q).events = s.events := by
  cases q <;> rfl
@[simp] theorem Sys.noteLoad_lease (q : Call Val) : (s.noteLoad q).lease = s.lease := by
  cases q <;> rfl
@[simp] theorem Sys.noteLoad_waits (q : Call Val) : (s.noteLoad q).waits = s.waits := by
  cases q <;> rfl
@[simp] theorem Sys.noteLoad_row? (q : Call Val) (w : String) :
    (s.noteLoad q).row? w = s.row? w := by
  cases q <;> rfl
@[simp] theorem Sys.noteLoad_history (q : Call Val) (w : String) :
    (s.noteLoad q).history w = s.history w := by
  cases q <;> rfl

theorem Sys.getElem?_setThread {t : Nat} {old : Thread Val} (h : s.threads[t]? = some old)
    (th : Thread Val) (u : Nat) :
    (s.setThread t th).threads[u]? = if u = t then some th else s.threads[u]? := by
  obtain ⟨hlt, -⟩ := List.getElem?_eq_some_iff.mp h
  show (s.threads.set t th)[u]? = _
  rw [List.getElem?_set]
  by_cases hu : u = t
  · simp [hu, hlt]
  · simp [hu, Ne.symm hu]

theorem Sys.getElem?_spawn (task : Task Val) (u : Nat) :
    (s.spawn task).threads[u]?
      = if u = s.threads.length then some ⟨task, none, true⟩ else s.threads[u]? := by
  show (s.threads ++ [⟨task, none, true⟩])[u]? = _
  rw [List.getElem?_append]
  by_cases hu : u < s.threads.length
  · rw [if_pos hu, if_neg (by omega)]
  · rw [if_neg hu]
    by_cases hu' : u = s.threads.length
    · simp [hu']
    · rw [if_neg hu', List.getElem?_eq_none (by simp; omega), List.getElem?_eq_none (by omega)]

theorem Sys.thread?_eq_some {t : Nat} {th : Thread Val} (h : s.thread? t = some th) :
    s.threads[t]? = some th ∧ th.alive = true := by
  simpa [Sys.thread?, Option.filter_eq_some_iff] using h

theorem Sys.tx?_eq {t : Nat} {th : Thread Val} (h : s.threads[t]? = some th) :
    s.tx? t = th.tx := by
  simp [Sys.tx?, h]

theorem Sys.tx?_eq_some {t : Nat} {x : Tx} (h : s.tx? t = some x) :
    ∃ task alive, s.threads[t]? = some ⟨task, some x, alive⟩ := by
  unfold Sys.tx? at h
  cases hth : s.threads[t]? with
  | none => rw [hth] at h; simp at h
  | some th =>
    rw [hth] at h
    obtain ⟨task, tx, alive⟩ := th
    have htx : tx = some x := by simpa using h
    exact ⟨task, alive, by rw [htx]⟩

theorem Sys.tx?_setThread {t : Nat} {old : Thread Val} (h : s.threads[t]? = some old)
    (th : Thread Val) (u : Nat) :
    (s.setThread t th).tx? u = if u = t then th.tx else s.tx? u := by
  unfold Sys.tx?
  rw [Sys.getElem?_setThread h]
  by_cases hu : u = t <;> simp [hu]

theorem Sys.tx?_spawn (task : Task Val) (u : Nat) : (s.spawn task).tx? u = s.tx? u := by
  unfold Sys.tx?
  rw [Sys.getElem?_spawn]
  by_cases hu : u = s.threads.length
  · rw [if_pos hu, hu, List.getElem?_eq_none (le_refl _)]
    rfl
  · rw [if_neg hu]

@[simp] theorem Sys.tx?_setNextId (n u : Nat) : (s.setNextId n).tx? u = s.tx? u := rfl

theorem Sys.allOthers_iff {t : Nat} {p : Tx → Bool} :
    s.allOthers t p = true ↔ ∀ u x, u ≠ t → s.tx? u = some x → p x = true := by
  unfold Sys.allOthers
  rw [List.all_eq_true]
  constructor
  · intro h u x hu hx
    obtain ⟨task, alive, hth⟩ := Sys.tx?_eq_some hx
    obtain ⟨hlt, -⟩ := List.getElem?_eq_some_iff.mp hth
    have := h u (List.mem_range.mpr hlt)
    simpa [hu, hx] using this
  · intro h u _
    by_cases hu : u = t
    · simp [hu]
    · cases hx : s.tx? u with
      | none => simp
      | some x => simpa [hu] using h u x hu hx

theorem Sys.lockable_iff {t : Nat} {w : String} {mode : LockMode} :
    s.lockable t w mode = true ↔
      ∀ u x m, u ≠ t → s.tx? u = some x → (w, m) ∈ x.locks → mode.conflicts m = false := by
  unfold Sys.lockable
  rw [Sys.allOthers_iff]
  constructor
  · intro h u x m hu hx hm
    have := List.all_eq_true.mp (h u x hu hx) (w, m) hm
    simpa using this
  · intro h u x hu hx
    refine List.all_eq_true.mpr fun l hl => ?_
    by_cases hw : l.1 = w
    · have := h u x l.2 hu hx (hw ▸ hl)
      simp [this]
    · simp [hw]

theorem Sys.keyFree_iff {t : Nat} {w : String} :
    s.keyFree t w = true ↔
      ∀ u x row, u ≠ t → s.tx? u = some x → row ∈ x.created → row.workflowId ≠ w := by
  unfold Sys.keyFree
  rw [Sys.allOthers_iff]
  constructor
  · intro h u x row hu hx hrow
    have := List.all_eq_true.mp (h u x hu hx) row hrow
    simpa using this
  · intro h u x hu hx
    refine List.all_eq_true.mpr fun row hrow => ?_
    simpa using h u x row hu hx hrow

/-! ## the steps -/

inductive Step (d : Deployment Val) (s : Sys Val) : Label Val → Sys Val → Prop where
  | tick (duration : Nat) : Step d s (.tick duration) { s with clock := s.clock + duration }
  | claim (worker : String) (row : WorkflowRecord) :
      Step d s (.claim worker row) (s.spawn (.claiming worker row))
  | request (r : Request) : Step d s (.request r) (s.spawn (.request r (handleRequest r)))
  | heartbeat {t : Nat} {r : Run Val} {tx : Option Tx}
      (hth : s.threads[t]? = some ⟨.run r, tx, true⟩) (hr : r.isEnded = false) :
      Step d s (.heartbeat t) (s.spawn (.heartbeat r.workflowId (extendLock r.workflowId)))
  | begin {t : Nat} {task : Task Val} {txn : Txn}
      {k : (Call.transaction txn : Call Val).Reply → Task Val}
      (hth : s.threads[t]? = some ⟨task, none, true⟩)
      (hq : task.next? d t = some ⟨.transaction txn, k⟩) :
      Step d s (.begin t) (s.setThread t ⟨task, some (Tx.start txn s.clock), true⟩)
  | execute {t : Nat} {task : Task Val} {x x' : Tx} {stmt : Stmt} {rest : List Stmt}
      (hth : s.threads[t]? = some ⟨task, some x, true⟩) (hrest : x.rest = stmt :: rest)
      (hx : x.after stmt rest s.nextId (s.effect d t x stmt) = some x') :
      Step d s (.execute t)
        ((s.setThread t ⟨task, some x', true⟩).setNextId ((s.effect d t x stmt).nextId s.nextId))
  | commit {t : Nat} {task : Task Val} {x : Tx} {txn : Txn}
      {k : (Call.transaction txn : Call Val).Reply → Task Val}
      (hth : s.threads[t]? = some ⟨task, some x, true⟩) (hrest : x.rest = [])
      (hq : task.next? d t = some ⟨.transaction txn, k⟩) :
      Step d s (.commit t) ((s.publish t x).setThread t ⟨k x.result, none, true⟩)
  | read {t : Nat} {task : Task Val} {q : Call Val} {k : q.Reply → Task Val} {reply : q.Reply}
      (hth : s.threads[t]? = some ⟨task, none, true⟩) (hq : task.next? d t = some ⟨q, k⟩)
      (hreply : s.reply? q = some reply) :
      Step d s (.read t) ((s.noteLoad q).setThread t ⟨k reply, none, true⟩)
  | body {t : Nat} {task : Task Val} {w : String} {i : Nat} {f : ActivityFunction Val}
      {args : JsonSafe}
      {k : (Call.runActivityBody w i f args : Call Val).Reply → Task Val}
      (result : Except PyExc Val) (hth : s.threads[t]? = some ⟨task, none, true⟩)
      (hq : task.next? d t = some ⟨.runActivityBody w i f args, k⟩) :
      Step d s (.body t result) (s.setThread t ⟨k result, none, true⟩)
  | advance {t : Nat} {r r' : Run Val} (hth : s.threads[t]? = some ⟨.run r, none, true⟩)
      (hr : r.advance d.toRuntime = some r') :
      Step d s (.advance t) (s.setThread t ⟨.run r', none, true⟩)
  | crash {t : Nat} {task : Task Val} {tx : Option Tx}
      (hth : s.threads[t]? = some ⟨task, tx, true⟩) :
      Step d s (.crash t) (s.setThread t ⟨task, none, false⟩)

theorem Step.of_step {l : Label Val} (h : s.step d l = some s') : Step d s l s' := by
  cases l with
  | tick duration =>
    simp only [Sys.step, Option.some.injEq] at h
    exact h ▸ .tick duration
  | claim worker row =>
    simp only [Sys.step, Option.some.injEq] at h
    exact h ▸ .claim worker row
  | request r =>
    simp only [Sys.step, Option.some.injEq] at h
    exact h ▸ .request r
  | heartbeat t =>
    simp only [Sys.step] at h
    split at h
    · rename_i r tx alive hth
      obtain ⟨hth, rfl⟩ := Sys.thread?_eq_some hth
      split at h
      · cases h
      · rename_i hr
        simp only [Option.some.injEq] at h
        exact h ▸ .heartbeat hth (by simpa using hr)
    · cases h
  | begin t =>
    simp only [Sys.step] at h
    split at h
    · rename_i task alive hth
      obtain ⟨hth, rfl⟩ := Sys.thread?_eq_some hth
      split at h
      · rename_i txn k hq
        simp only [Option.some.injEq] at h
        exact h ▸ .begin hth hq
      · cases h
    · cases h
  | execute t =>
    simp only [Sys.step] at h
    split at h
    · rename_i task x alive hth
      obtain ⟨hth, rfl⟩ := Sys.thread?_eq_some hth
      split at h
      · rename_i stmt rest hrest
        obtain ⟨x', hx, rfl⟩ := Option.map_eq_some_iff.mp h
        exact .execute hth hrest hx
      · cases h
    · cases h
  | commit t =>
    simp only [Sys.step] at h
    split at h
    · rename_i task x alive hth
      obtain ⟨hth, rfl⟩ := Sys.thread?_eq_some hth
      split at h
      · rename_i txn k hrest hq
        simp only [Option.some.injEq] at h
        exact h ▸ .commit hth hrest hq
      · cases h
    · cases h
  | read t =>
    simp only [Sys.step] at h
    split at h
    · rename_i task alive hth
      obtain ⟨hth, rfl⟩ := Sys.thread?_eq_some hth
      split at h
      · rename_i q k hq
        obtain ⟨reply, hreply, rfl⟩ := Option.map_eq_some_iff.mp h
        exact .read hth hq hreply
      · cases h
    · cases h
  | body t result =>
    simp only [Sys.step] at h
    split at h
    · rename_i task alive hth
      obtain ⟨hth, rfl⟩ := Sys.thread?_eq_some hth
      split at h
      · rename_i w i f args k hq
        simp only [Option.some.injEq] at h
        exact h ▸ .body result hth hq
      · cases h
    · cases h
  | advance t =>
    simp only [Sys.step] at h
    split at h
    · rename_i r alive hth
      obtain ⟨hth, rfl⟩ := Sys.thread?_eq_some hth
      obtain ⟨r', hr, rfl⟩ := Option.map_eq_some_iff.mp h
      exact .advance hth hr
    · cases h
  | crash t =>
    simp only [Sys.step] at h
    obtain ⟨⟨task, tx, alive⟩, hth, rfl⟩ := Option.map_eq_some_iff.mp h
    obtain ⟨hth, rfl⟩ := Sys.thread?_eq_some hth
    exact .crash hth

/-! ## what a step changes -/

/-- the committed tables, with the bookkeeping that only a commit changes -/
structure Sys.SameTables (s s' : Sys Val) : Prop where
  workflows : s'.workflows = s.workflows
  events : s'.events = s.events
  lease : s'.lease = s.lease
  waits : s'.waits = s.waits

theorem Sys.SameTables.row? {w : String} (h : s.SameTables s') : s'.row? w = s.row? w := by
  unfold Sys.row?
  rw [h.workflows]

theorem Sys.SameTables.history {w : String} (h : s.SameTables s') :
    s'.history w = s.history w := by
  unfold Sys.history
  rw [h.events]

theorem Step.tables_cases {l : Label Val} (h : Step d s l s') :
    s.SameTables s' ∨ ∃ (t : Nat) (task : Task Val) (x : Tx) (txn : Txn)
      (k : (Call.transaction txn : Call Val).Reply → Task Val),
      l = .commit t ∧ s.threads[t]? = some ⟨task, some x, true⟩ ∧ x.rest = []
        ∧ task.next? d t = some ⟨.transaction txn, k⟩
        ∧ s' = (s.publish t x).setThread t ⟨k x.result, none, true⟩ := by
  cases h with
  | commit hth hrest hq => exact .inr ⟨_, _, _, _, _, rfl, hth, hrest, hq, rfl⟩
  | read hth hq hreply => exact .inl ⟨by simp, by simp, by simp, by simp⟩
  | _ => exact .inl ⟨rfl, rfl, rfl, rfl⟩

/-- an open transaction was there before, has just begun, or has executed a statement -/
theorem Step.tx_cases {l : Label Val} (h : Step d s l s') {u : Nat} {x' : Tx}
    (hx : s'.tx? u = some x') :
    (s.tx? u = some x' ∧ l ≠ .commit u)
    ∨ (∃ (task : Task Val) (txn : Txn) (k : (Call.transaction txn : Call Val).Reply → Task Val),
        l = .begin u ∧ s.threads[u]? = some ⟨task, none, true⟩
          ∧ task.next? d u = some ⟨.transaction txn, k⟩ ∧ x' = Tx.start txn s.clock)
    ∨ (∃ (x : Tx) (stmt : Stmt) (rest : List Stmt), l = .execute u ∧ s.tx? u = some x
        ∧ x.rest = stmt :: rest
        ∧ x.after stmt rest s.nextId (s.effect d u x stmt) = some x') := by
  cases h with
  | tick n => exact .inl ⟨hx, nofun⟩
  | claim worker row => exact .inl ⟨by rwa [Sys.tx?_spawn] at hx, nofun⟩
  | request r => exact .inl ⟨by rwa [Sys.tx?_spawn] at hx, nofun⟩
  | heartbeat hth hr => exact .inl ⟨by rwa [Sys.tx?_spawn] at hx, nofun⟩
  | begin hth hq =>
    rw [Sys.tx?_setThread hth] at hx
    split at hx
    · rename_i hu
      subst hu
      exact .inr (.inl ⟨_, _, _, rfl, hth, hq, (Option.some.inj hx).symm⟩)
    · exact .inl ⟨hx, nofun⟩
  | execute hth hrest hx' =>
    rw [Sys.tx?_setNextId, Sys.tx?_setThread hth] at hx
    split at hx
    · rename_i hu
      subst hu
      obtain rfl := Option.some.inj hx
      exact .inr (.inr ⟨_, _, _, rfl, Sys.tx?_eq hth, hrest, hx'⟩)
    · exact .inl ⟨hx, nofun⟩
  | commit hth hrest hq =>
    rw [Sys.tx?_setThread (s := s.publish _ _) hth] at hx
    split at hx
    · cases hx
    · rename_i hu
      exact .inl ⟨hx, fun h => hu (Label.commit.inj h).symm⟩
  | read hth hq hreply =>
    rw [Sys.tx?_setThread (s := s.noteLoad _) (by rw [Sys.noteLoad_threads]; exact hth)] at hx
    split at hx
    · cases hx
    · exact .inl ⟨by simpa [Sys.tx?] using hx, nofun⟩
  | body result hth hq =>
    rw [Sys.tx?_setThread hth] at hx
    split at hx
    · cases hx
    · exact .inl ⟨hx, nofun⟩
  | advance hth hr =>
    rw [Sys.tx?_setThread hth] at hx
    split at hx
    · cases hx
    · exact .inl ⟨hx, nofun⟩
  | crash hth =>
    rw [Sys.tx?_setThread hth] at hx
    split at hx
    · cases hx
    · exact .inl ⟨hx, nofun⟩

theorem Step.ne_commit {l : Label Val} (h : Step d s l s') {u : Nat} {x' : Tx}
    (hx : s'.tx? u = some x') : l ≠ .commit u := by
  rcases h.tx_cases hx with ⟨-, hne⟩ | ⟨_, _, _, hl, -⟩ | ⟨_, _, _, hl, -⟩
  · exact hne
  · rw [hl]
    exact nofun
  · rw [hl]
    exact nofun

end

end TemporalLight
