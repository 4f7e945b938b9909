import Mathlib.Data.List.Pairwise

/-!
# Dictionaries that keep the order of insertion

A dictionary is a list of items, and keys are compared by a `BEq` that need not be equality.
Inserting under a key that is there replaces the value and keeps the key and its place; `update`
inserts the items of a list one after the other, and `ofItems` starts from the empty dictionary.

* `distinct_ofItems`        the keys of a dictionary are distinct
* `ofItems_of_distinct`     items with distinct keys are a dictionary as they are
* `ofItems_of_length`       and so are items of which none is lost
* `value_of_mem_ofItems`    no value is made up
* `lookup_insert`, `lookup_erase`
                          what is found afterwards
* `lookup_update`           an update that agrees on a key leaves its value as it was
-/

namespace Dict
variable {κ α β : Type} [BEq κ] {dict items : List (κ × α)} {k : κ} {v : α}

def insert (k : κ) (v : α) : List (κ × α) → List (κ × α)
  | [] => [(k, v)]
  | (k', v') :: dict => if k' == k then (k', v) :: dict else (k', v') :: insert k v dict

def update (dict items : List (κ × α)) : List (κ × α) :=
  items.foldl (fun dict item => insert item.1 item.2 dict) dict

def ofItems (items : List (κ × α)) : List (κ × α) := update [] items

def lookup (k : κ) (dict : List (κ × α)) : Option α := (dict.find? fun a => a.1 == k).map (·.2)

/-- `pop(k, None)` -/
def erase (k : κ) (dict : List (κ × α)) : List (κ × α) := dict.filter fun a => !(a.1 == k)

def Distinct (dict : List (κ × α)) : Prop := dict.Pairwise fun a b => (a.1 == b.1) = false

instance : Decidable (Distinct dict) :=
  inferInstanceAs (Decidable (dict.Pairwise fun a b => (a.1 == b.1) = false))

theorem distinct_iff :
    Distinct dict ↔ (dict.map (·.1)).Pairwise fun k k' => (k == k') = false := by
  rw [List.pairwise_map]
  rfl

theorem Distinct.eq_of_key (h : Distinct dict) (hsymm : ∀ k k' : κ, (k == k') = (k' == k))
    {a b : κ × α} (ha : a ∈ dict) (hb : b ∈ dict) (hab : (a.1 == b.1) = true) : a = b := by
  by_contra hne
  have hsym : Std.Symm fun a b : κ × α => (a.1 == b.1) = false :=
    ⟨fun a b hab => (hsymm b.1 a.1).trans hab⟩
  have := List.Pairwise.forall h ha hb hne
  rw [hab] at this
  cases this

theorem insert_of_new (h : ∀ a ∈ dict, (a.1 == k) = false) :
    insert k v dict = dict ++ [(k, v)] := by
  induction dict with
  | nil => rfl
  | cons a dict ih =>
    obtain ⟨k', v'⟩ := a
    rw [insert, h (k', v') List.mem_cons_self, ih fun a ha => h a (List.mem_cons_of_mem _ ha)]
    rfl

theorem key_of_mem_insert {a : κ × α} (h : a ∈ insert k v dict) :
    a.1 = k ∨ ∃ b ∈ dict, b.1 = a.1 := by
  induction dict with
  | nil =>
    rw [insert, List.mem_singleton] at h
    rw [h]
    exact .inl rfl
  | cons b dict ih =>
    obtain ⟨k', v'⟩ := b
    rw [insert] at h
    split at h
    · rcases List.mem_cons.mp h with rfl | h
      · exact .inr ⟨(k', v'), List.mem_cons_self, rfl⟩
      · exact .inr ⟨a, List.mem_cons_of_mem _ h, rfl⟩
    · rcases List.mem_cons.mp h with rfl | h
      · exact .inr ⟨(k', v'), List.mem_cons_self, rfl⟩
      · exact (ih h).imp_right fun ⟨b, hb, heq⟩ => ⟨b, List.mem_cons_of_mem _ hb, heq⟩

theorem distinct_insert (h : Distinct dict) : Distinct (insert k v dict) := by
  induction dict with
  | nil => exact List.pairwise_singleton _ _
  | cons b dict ih =>
    obtain ⟨k', v'⟩ := b
    obtain ⟨hne, hdict⟩ := List.pairwise_cons.mp h
    rw [insert]
    split
    · exact List.pairwise_cons.mpr ⟨hne, hdict⟩
    · rename_i hk
      refine List.pairwise_cons.mpr ⟨fun a ha => ?_, ih hdict⟩
      rcases key_of_mem_insert ha with heq | ⟨b, hb, heq⟩
      · rw [heq]
        exact Bool.eq_false_iff.mpr hk
      · rw [← heq]
        exact hne b hb

theorem distinct_ofItems : Distinct (ofItems items) := by
  suffices ∀ dict : List (κ × α), Distinct dict →
      Distinct (items.foldl (fun dict item => insert item.1 item.2 dict) dict) from this [] .nil
  induction items with
  | nil => exact fun _ h => h
  | cons item items ih => exact fun dict h => ih _ (distinct_insert h)

theorem value_of_mem_insert {a : κ × α} (h : a ∈ insert k v dict) :
    a.2 = v ∨ ∃ b ∈ dict, b.2 = a.2 := by
  induction dict with
  | nil =>
    rw [insert, List.mem_singleton] at h
    exact .inl (congrArg Prod.snd h)
  | cons b dict ih =>
    obtain ⟨k', v'⟩ := b
    rw [insert] at h
    split at h
    · rcases List.mem_cons.mp h with rfl | h
      · exact .inl rfl
      · exact .inr ⟨a, List.mem_cons_of_mem _ h, rfl⟩
    · rcases List.mem_cons.mp h with rfl | h
      · exact .inr ⟨(k', v'), List.mem_cons_self, rfl⟩
      · exact (ih h).imp_right fun ⟨b, hb, heq⟩ => ⟨b, List.mem_cons_of_mem _ hb, heq⟩

theorem value_of_mem_ofItems {a : κ × α} (h : a ∈ ofItems items) : ∃ b ∈ items, b.2 = a.2 := by
  suffices ∀ dict : List (κ × α),
      a ∈ items.foldl (fun dict item => insert item.1 item.2 dict) dict →
      (∃ b ∈ items, b.2 = a.2) ∨ ∃ b ∈ dict, b.2 = a.2 from
    (this [] h).resolve_right fun ⟨b, hb, _⟩ => absurd hb List.not_mem_nil
  clear h
  induction items with
  | nil => exact fun dict h => .inr ⟨a, h, rfl⟩
  | cons item items ih =>
    intro dict h
    rcases ih _ h with ⟨b, hb, heq⟩ | ⟨b, hb, heq⟩
    · exact .inl ⟨b, List.mem_cons_of_mem _ hb, heq⟩
    · rcases value_of_mem_insert hb with hv | ⟨c, hc, hcb⟩
      · exact .inl ⟨item, List.mem_cons_self, hv.symm.trans heq⟩
      · exact .inr ⟨c, hc, hcb.trans heq⟩

theorem ofItems_of_distinct (h : Distinct items) : ofItems items = items := by
  suffices ∀ dict : List (κ × α), Distinct (dict ++ items) →
      items.foldl (fun dict item => insert item.1 item.2 dict) dict = dict ++ items from this [] h
  clear h
  induction items with
  | nil =>
    intro dict _
    rw [List.append_nil]
    rfl
  | cons item items ih =>
    intro dict h
    have hnew : ∀ a ∈ dict, (a.1 == item.1) = false := fun a ha =>
      (List.pairwise_append.mp h).2.2 a ha item List.mem_cons_self
    have happend : dict ++ item :: items = dict ++ [item] ++ items := by
      rw [List.append_assoc, List.singleton_append]
    rw [List.foldl_cons, insert_of_new hnew, happend]
    exact ih _ (by rwa [happend] at h)

theorem insert_cases (k : κ) (v : α) (dict : List (κ × α)) : insert k v dict = dict ++ [(k, v)]
    ∨ (insert k v dict).length = dict.length := by
  induction dict with
  | nil => exact .inl rfl
  | cons a dict ih =>
    rw [insert]
    split
    · exact .inr rfl
    · rcases ih with ih | ih
      · exact .inl (by rw [ih]; rfl)
      · exact .inr (congrArg (· + 1) ih)

theorem length_update (dict items : List (κ × α)) :
    (update dict items).length ≤ dict.length + items.length := by
  induction items generalizing dict with
  | nil => exact Nat.le_refl _
  | cons item items ih =>
    have hinsert : (insert item.1 item.2 dict).length ≤ dict.length + 1 := by
      rcases insert_cases item.1 item.2 dict with h | h
      · exact Nat.le_of_eq (by rw [h, List.length_append, List.length_singleton])
      · rw [h]
        exact Nat.le_succ _
    have hupdate := ih (insert item.1 item.2 dict)
    have hlen : (update dict (item :: items)).length
      = (update (insert item.1 item.2 dict) items).length := rfl
    rw [hlen, List.length_cons]
    omega

theorem length_ofItems (items : List (κ × α)) : (ofItems items).length ≤ items.length := by
  have h := length_update [] items
  rwa [List.length_nil, Nat.zero_add] at h

theorem ofItems_of_length (h : (ofItems items).length = items.length) : ofItems items = items := by
  suffices ∀ dict : List (κ × α), (update dict items).length = dict.length + items.length →
      update dict items = dict ++ items from this [] (by rw [List.length_nil, Nat.zero_add]; exact h)
  clear h
  induction items with
  | nil => exact fun dict _ => (List.append_nil dict).symm
  | cons item items ih =>
    intro dict h
    have hupdate : update dict (item :: items) = update (insert item.1 item.2 dict) items := rfl
    rw [hupdate, List.length_cons] at h
    rw [hupdate]
    rcases insert_cases item.1 item.2 dict with hnew | hold
    · rw [hnew] at h ⊢
      have happend : dict ++ item :: items = dict ++ [item] ++ items := by
        rw [List.append_assoc, List.singleton_append]
      rw [happend]
      refine ih _ (h.trans ?_)
      rw [List.length_append, List.length_singleton]
      omega
    · -- the key was there, so an item is lost
      have hlen := length_update (insert item.1 item.2 dict) items
      omega

/-! ## lookup -/

theorem lookup_cons (a : κ × α) :
    lookup k (a :: dict) = if a.1 == k then some a.2 else lookup k dict := by
  rw [lookup, List.find?_cons]
  cases a.1 == k <;> rfl

theorem lookup_insert [LawfulBEq κ] (k' : κ) :
    lookup k' (insert k v dict) = if k == k' then some v else lookup k' dict := by
  induction dict with
  | nil => exact lookup_cons (k, v)
  | cons a dict ih =>
    obtain ⟨k₀, v₀⟩ := a
    rw [insert]
    split
    · rename_i hk
      obtain rfl := eq_of_beq hk
      rw [lookup_cons, lookup_cons]
      split <;> rfl
    · rename_i hk
      rw [lookup_cons, lookup_cons, ih]
      split
      · rename_i hk'
        obtain rfl := eq_of_beq hk'
        rw [if_neg fun h => hk (beq_iff_eq.mpr (beq_iff_eq.mp h).symm)]
      · rfl

theorem lookup_update [LawfulBEq κ] (h : ∀ item ∈ items, item.1 = k → lookup k dict = some item.2) :
    lookup k (update dict items) = lookup k dict := by
  induction items generalizing dict with
  | nil => rfl
  | cons item items ih =>
    have hinsert : lookup k (insert item.1 item.2 dict) = lookup k dict := by
      rw [lookup_insert]
      split
      · rename_i hk
        exact (h item List.mem_cons_self (eq_of_beq hk)).symm
      · rfl
    refine (ih fun a ha hk => ?_).trans hinsert
    rw [hinsert]
    exact h a (List.mem_cons_of_mem _ ha) hk

theorem lookup_erase [LawfulBEq κ] (k' : κ) :
    lookup k' (erase k dict) = if k == k' then none else lookup k' dict := by
  induction dict with
  | nil => exact (ite_self _).symm
  | cons a dict ih =>
    rw [erase, List.filter_cons]
    by_cases hk : (a.1 == k) = true
    · rw [if_neg (by simp [hk]), lookup_cons]
      refine Eq.trans ih ?_
      by_cases hk' : (k == k') = true
      · rw [if_pos hk', if_pos hk']
      · rw [if_neg hk', if_neg hk', if_neg]
        rwa [eq_of_beq hk]
    · rw [if_pos (by simp [hk]), lookup_cons, lookup_cons]
      by_cases hk' : (a.1 == k') = true
      · rw [if_pos hk', if_pos hk', if_neg]
        rw [← eq_of_beq hk']
        exact fun h => hk (beq_iff_eq.mpr (beq_iff_eq.mp h).symm)
      · rw [if_neg hk', if_neg hk']
        exact ih

end Dict
