import Mathlib.Data.List.Basic

/-!
# Tables with a primary key

A table is the list of its rows.  `lookup` reads the row of a key, `modify` is an `UPDATE` of the
row of a key; an inserted row goes to the end.  `lookup_modify` and `lookup_append` say how the
operations compose; `countP_modify_lt` is the step of an argument that updates one row after the
other until none of a kind is left.
-/

namespace Rows
variable {κ ρ : Type} [DecidableEq κ] (key : ρ → κ)

def lookup (rows : List ρ) (k : κ) : Option ρ := rows.find? (fun r => key r = k)

def modify (k : κ) (f : ρ → ρ) (rows : List ρ) : List ρ :=
  rows.map (fun r => if key r = k then f r else r)

variable {key}

theorem lookup_nil (k : κ) : lookup key [] k = none := rfl

theorem lookup_cons (r : ρ) (rows : List ρ) (k : κ) :
    lookup key (r :: rows) k = if key r = k then some r else lookup key rows k := by
  unfold lookup
  by_cases h : key r = k <;> simp [h]

theorem key_of_lookup {rows : List ρ} {k : κ} {r : ρ} (h : lookup key rows k = some r) :
    key r = k := by
  simpa using List.find?_some h

theorem mem_of_lookup {rows : List ρ} {k : κ} {r : ρ} (h : lookup key rows k = some r) :
    r ∈ rows :=
  List.mem_of_find?_eq_some h

theorem lookup_append (rows rows' : List ρ) (k : κ) :
    lookup key (rows ++ rows') k = (lookup key rows k).or (lookup key rows' k) :=
  List.find?_append

theorem lookup_eq_none {rows : List ρ} {k : κ} :
    lookup key rows k = none ↔ ∀ r ∈ rows, key r ≠ k := by
  simp [lookup]

theorem lookup_modify (rows : List ρ) (k k' : κ) (f : ρ → ρ) (hf : ∀ r, key (f r) = key r) :
    lookup key (modify key k' f rows) k
      = if k = k' then (lookup key rows k).map f else lookup key rows k := by
  induction rows with
  | nil => simp [modify, lookup_nil]
  | cons r rows ih =>
    have hm : modify key k' f (r :: rows)
        = (if key r = k' then f r else r) :: modify key k' f rows := rfl
    rw [hm, lookup_cons, lookup_cons, ih]
    by_cases hr : key r = k'
    · rw [if_pos hr, hf r]
      by_cases hk : key r = k
      · have hkk : k = k' := hk.symm.trans hr
        simp [hk, hkk]
      · have hkk : k ≠ k' := fun h => hk (hr.trans h.symm)
        simp [hk, hkk]
    · rw [if_neg hr]
      by_cases hk : key r = k
      · have hkk : k ≠ k' := fun h => hr (hk.trans h)
        simp [hk, hkk]
      · simp [hk]

theorem modify_cons (r : ρ) (rows : List ρ) (k : κ) (f : ρ → ρ) :
    modify key k f (r :: rows) = (if key r = k then f r else r) :: modify key k f rows := rfl

theorem lookup_of_mem {rows : List ρ} (hkeys : (rows.map key).Nodup) {r : ρ} (hr : r ∈ rows) :
    lookup key rows (key r) = some r := by
  induction rows with
  | nil => cases hr
  | cons r' rows ih =>
    rw [List.map_cons, List.nodup_cons] at hkeys
    rw [lookup_cons]
    rcases List.mem_cons.mp hr with rfl | hr
    · rw [if_pos rfl]
    · have hne : key r' ≠ key r := by
        intro h
        exact hkeys.1 (h ▸ List.mem_map_of_mem hr)
      rw [if_neg hne, ih hkeys.2 hr]

/-- an update after which the row does not count any more -/
theorem countP_modify_lt {p : ρ → Bool} {rows : List ρ} {k : κ} {f : ρ → ρ}
    (hf : ∀ r, key r = k → p (f r) = false) {r : ρ} (hr : r ∈ rows) (hk : key r = k)
    (hp : p r = true) : (modify key k f rows).countP p < rows.countP p := by
  have hle (rows : List ρ) : (modify key k f rows).countP p ≤ rows.countP p := by
    induction rows with
    | nil => exact Nat.le_refl 0
    | cons r' rows ih =>
      rw [modify_cons, List.countP_cons, List.countP_cons]
      by_cases hk' : key r' = k
      · rw [if_pos hk', hf r' hk', if_neg Bool.false_ne_true]
        omega
      · rw [if_neg hk']
        omega
  induction rows with
  | nil => cases hr
  | cons r' rows ih =>
    rw [modify_cons, List.countP_cons, List.countP_cons]
    rcases List.mem_cons.mp hr with rfl | hr
    · have hrows := hle rows
      rw [if_pos hk, hf r hk, if_neg Bool.false_ne_true, if_pos hp]
      omega
    · have hlt := ih hr
      by_cases hk' : key r' = k
      · rw [if_pos hk', hf r' hk', if_neg Bool.false_ne_true]
        omega
      · rw [if_neg hk']
        omega

end Rows
