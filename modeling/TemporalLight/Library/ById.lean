import Mathlib.Data.List.Sort
import Mathlib.Data.List.Basic

/-!
# Tables read in the order of a numeric key

A table with a `BIGSERIAL` key is kept here as the list of its rows in increasing order of the
key.  A new row gets a fresh key, but it need not be the largest one at the moment it becomes
visible, so a row enters at the place its key gives it (`insert`).

* `Sorted key l`         the keys of `l` increase strictly;
* `insert_filter`        what an insertion does to a selection;
* `insert_of_forall_lt`  a row with the largest key comes last;
* `find?_insert`         the first hit of a predicate after an insertion;
* `insertAll`            the same for several rows.
-/

namespace ById
variable {α : Type} (key : α → Nat)

def Sorted (l : List α) : Prop := l.Pairwise (fun a b => key a < key b)

/-- put `a` at the place of its key -/
def insert (a : α) : List α → List α
  | [] => [a]
  | b :: l => if key a < key b then a :: b :: l else b :: insert a l

/-- put all of `new` at the places of their keys -/
def insertAll (l new : List α) : List α := new.foldl (fun l a => insert key a l) l

variable {key}

theorem insert_cons_lt {a b : α} (l : List α) (h : key a < key b) :
    insert key a (b :: l) = a :: b :: l := by
  simp only [insert, if_pos h]

theorem insert_cons_ge {a b : α} (l : List α) (h : ¬ key a < key b) :
    insert key a (b :: l) = b :: insert key a l := by
  simp only [insert, if_neg h]

@[simp] theorem mem_insert {a c : α} {l : List α} : c ∈ insert key a l ↔ c = a ∨ c ∈ l := by
  induction l with
  | nil => simp [insert]
  | cons b l ih =>
    by_cases h : key a < key b
    · simp [insert_cons_lt l h]
    · rw [insert_cons_ge l h, List.mem_cons, ih, List.mem_cons]
      tauto

theorem insert_perm (a : α) (l : List α) : (insert key a l).Perm (a :: l) := by
  induction l with
  | nil => exact List.Perm.refl _
  | cons b l ih =>
    by_cases h : key a < key b
    · rw [insert_cons_lt l h]
    · rw [insert_cons_ge l h]
      exact (List.Perm.cons b ih).trans (List.Perm.swap a b l)

theorem Sorted.insert {a : α} {l : List α} (hl : Sorted key l)
    (ha : ∀ b ∈ l, key b ≠ key a) : Sorted key (insert key a l) := by
  induction l with
  | nil => exact List.pairwise_singleton _ _
  | cons b l ih =>
    obtain ⟨hb, hl'⟩ := List.pairwise_cons.mp hl
    by_cases h : key a < key b
    · rw [insert_cons_lt l h]
      refine List.pairwise_cons.mpr ⟨fun c hc => ?_, hl⟩
      rcases List.mem_cons.mp hc with rfl | hc'
      · exact h
      · exact lt_trans h (hb c hc')
    · rw [insert_cons_ge l h]
      have hne : key b ≠ key a := ha b List.mem_cons_self
      refine List.pairwise_cons.mpr ⟨fun c hc => ?_, ih hl' fun c hc =>
        ha c (List.mem_cons_of_mem _ hc)⟩
      rcases mem_insert.mp hc with rfl | hc'
      · omega
      · exact hb c hc'

theorem insert_of_forall_lt {a : α} {l : List α} (h : ∀ b ∈ l, key b < key a) :
    insert key a l = l ++ [a] := by
  induction l with
  | nil => rfl
  | cons b l ih =>
    have hb : ¬ key a < key b := by
      have := h b List.mem_cons_self
      omega
    rw [insert_cons_ge l hb, ih fun c hc => h c (List.mem_cons_of_mem _ hc), List.cons_append]

theorem insert_filter_neg {p : α → Bool} {a : α} (l : List α) (hp : p a = false) :
    (insert key a l).filter p = l.filter p := by
  induction l with
  | nil => simp [insert, hp]
  | cons b l ih =>
    by_cases h : key a < key b
    · rw [insert_cons_lt l h, List.filter_cons, hp]
      simp
    · rw [insert_cons_ge l h, List.filter_cons, List.filter_cons, ih]

/-- a selection that takes the new row gets it at the place of its key -/
theorem insert_filter_pos {p : α → Bool} {a : α} {l : List α} (hl : Sorted key l)
    (hp : p a = true) : (insert key a l).filter p = insert key a (l.filter p) := by
  induction l with
  | nil => simp [insert, hp]
  | cons b l ih =>
    obtain ⟨hb, hl'⟩ := List.pairwise_cons.mp hl
    by_cases h : key a < key b
    · rw [insert_cons_lt l h, List.filter_cons, hp, if_pos rfl]
      cases hf : (b :: l).filter p with
      | nil => rfl
      | cons c m =>
        have hc : c ∈ b :: l := (List.mem_filter.mp (hf ▸ List.mem_cons_self)).1
        have hac : key a < key c := by
          rcases List.mem_cons.mp hc with rfl | hc'
          · exact h
          · exact lt_trans h (hb c hc')
        rw [insert_cons_lt m hac]
    · rw [insert_cons_ge l h, List.filter_cons, List.filter_cons, ih hl']
      by_cases hpb : p b = true
      · simp only [hpb, if_true]
        rw [insert_cons_ge _ h]
      · simp only [hpb, Bool.false_eq_true, if_false]

theorem Sorted.filter {l : List α} (hl : Sorted key l) (p : α → Bool) :
    Sorted key (l.filter p) :=
  List.Pairwise.filter p hl

theorem find?_insert_neg {p : α → Bool} {a : α} (l : List α) (hp : p a = false) :
    (insert key a l).find? p = l.find? p := by
  rw [← List.head?_filter, ← List.head?_filter, insert_filter_neg l hp]

theorem find?_insert_some {p : α → Bool} {a e : α} {l : List α} (hl : Sorted key l)
    (he : l.find? p = some e) (ha : p a = true → key e < key a) :
    (insert key a l).find? p = some e := by
  by_cases hp : p a = true
  · rw [← List.head?_filter, insert_filter_pos hl hp]
    rw [← List.head?_filter] at he
    cases hf : l.filter p with
    | nil => rw [hf] at he; simp at he
    | cons b m =>
      rw [hf] at he
      have hbe : b = e := by simpa using he
      have hlt := ha hp
      have hge : ¬ key a < key b := by rw [hbe]; omega
      rw [insert_cons_ge m hge]
      exact he
  · have hp' : p a = false := by simpa using hp
    rw [find?_insert_neg l hp', he]

/-! ## several rows -/

@[simp] theorem insertAll_nil (l : List α) : insertAll key l [] = l := rfl

theorem insertAll_cons (l : List α) (a : α) (new : List α) :
    insertAll key l (a :: new) = insertAll key (insert key a l) new := rfl

@[simp] theorem mem_insertAll {c : α} {l new : List α} :
    c ∈ insertAll key l new ↔ c ∈ l ∨ c ∈ new := by
  induction new generalizing l with
  | nil => simp
  | cons a new ih =>
    rw [insertAll_cons, ih, mem_insert, List.mem_cons]
    tauto

theorem insertAll_perm (l new : List α) : (insertAll key l new).Perm (l ++ new) := by
  induction new generalizing l with
  | nil => simp
  | cons a new ih =>
    rw [insertAll_cons]
    refine (ih (insert key a l)).trans ?_
    exact ((insert_perm a l).append_right new).trans List.perm_middle.symm

theorem Sorted.insertAll {l new : List α} (hl : Sorted key l) (hnew : Sorted key new)
    (h : ∀ a ∈ new, ∀ b ∈ l, key b ≠ key a) : Sorted key (insertAll key l new) := by
  induction new generalizing l with
  | nil => exact hl
  | cons a new ih =>
    obtain ⟨ha, hnew'⟩ := List.pairwise_cons.mp hnew
    rw [insertAll_cons]
    refine ih (hl.insert (h a List.mem_cons_self)) hnew' fun b hb c hc => ?_
    rcases mem_insert.mp hc with rfl | hc'
    · exact Nat.ne_of_lt (ha b hb)
    · exact h b (List.mem_cons_of_mem _ hb) c hc'

theorem insertAll_filter {p : α → Bool} {l new : List α} (hl : Sorted key l)
    (hnew : Sorted key new) (h : ∀ a ∈ new, ∀ b ∈ l, key b ≠ key a) :
    (insertAll key l new).filter p = insertAll key (l.filter p) (new.filter p) := by
  induction new generalizing l with
  | nil => rfl
  | cons a new ih =>
    obtain ⟨ha, hnew'⟩ := List.pairwise_cons.mp hnew
    have hins : Sorted key (insert key a l) := hl.insert (h a List.mem_cons_self)
    have hstep : ∀ b ∈ new, ∀ c ∈ insert key a l, key c ≠ key b := by
      intro b hb c hc
      rcases mem_insert.mp hc with rfl | hc'
      · exact Nat.ne_of_lt (ha b hb)
      · exact h b (List.mem_cons_of_mem _ hb) c hc'
    rw [insertAll_cons, ih hins hnew' hstep]
    cases hp : p a with
    | true => rw [insert_filter_pos hl hp, List.filter_cons_of_pos hp, insertAll_cons]
    | false =>
      have hp' : ¬ p a = true := by simp [hp]
      rw [insert_filter_neg l hp, List.filter_cons_of_neg hp']

theorem insertAll_of_forall_lt {l new : List α} (hnew : Sorted key new)
    (h : ∀ a ∈ new, ∀ b ∈ l, key b < key a) : insertAll key l new = l ++ new := by
  induction new generalizing l with
  | nil => simp
  | cons a new ih =>
    obtain ⟨ha, hnew'⟩ := List.pairwise_cons.mp hnew
    have hstep : ∀ b ∈ new, ∀ c ∈ l ++ [a], key c < key b := by
      intro b hb c hc
      rcases List.mem_append.mp hc with hc | hc
      · exact h b (List.mem_cons_of_mem _ hb) c hc
      · rw [List.mem_singleton.mp hc]
        exact ha b hb
    rw [insertAll_cons, insert_of_forall_lt (h a List.mem_cons_self), ih hnew' hstep,
      List.append_assoc, List.singleton_append]

theorem find?_insertAll_some {p : α → Bool} {e : α} {l new : List α} (hl : Sorted key l)
    (hnew : Sorted key new) (h : ∀ a ∈ new, ∀ b ∈ l, key b ≠ key a)
    (he : l.find? p = some e) (hp : ∀ a ∈ new, p a = true → key e < key a) :
    (insertAll key l new).find? p = some e := by
  induction new generalizing l with
  | nil => exact he
  | cons a new ih =>
    obtain ⟨ha, hnew'⟩ := List.pairwise_cons.mp hnew
    rw [insertAll_cons]
    refine ih (hl.insert (h a List.mem_cons_self)) hnew' (fun b hb c hc => ?_)
      (find?_insert_some hl he (hp a List.mem_cons_self))
      fun b hb => hp b (List.mem_cons_of_mem _ hb)
    rcases mem_insert.mp hc with rfl | hc'
    · exact Nat.ne_of_lt (ha b hb)
    · exact h b (List.mem_cons_of_mem _ hb) c hc'

end ById
