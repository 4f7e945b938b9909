import TemporalLight.Blocks
import TemporalLight.Children

/-!
# Workflows as plain functions

What a forest of workflows computes, apart from how it is executed: an activity and a child are
functions that are called, a signal is an input, and a sleep does nothing.  A child is evaluated
where it is waited for.

* `Forest.evaluate`          the result of a workflow, with fuel
* `Forest.Pass`              values that the awaits of such a computation deliver
* `Forest.Pass.prefix_or`    two computations of one workflow deliver the same values
* `Forest.Pass.evaluate`     and what the function returns after them is the result
-/

namespace TemporalLight

/-- the functions behind a forest: the activities as functions of their arguments, the signals as
inputs of the workflows -/
structure Forest (Val : Type) where
  ofJson : Json → Val
  workflowRegistry : String → Option (Json → Program Val)
  body : ActivityFunction Val → Json → Val
  signal : String → String → Json

/-- what the function returns after these values -/
def Program.result? {Val : Type} (P : Program Val) (vs : List Val) : Option Json :=
  match P.next vs with
  | .ret (.ok result) => some result
  | _ => none

namespace Forest
variable {Val : Type} (F : Forest Val)

/-- the child that step `i` of the workflow has spawned -/
def childAt? (P : Program Val) (vs : List Val) (i : Nat) : Option (Program Val) :=
  match P.next (vs.take i) with
  | .spawnChild name (.ok input) => (F.workflowRegistry name).map fun f => f input
  | _ => none

def child? (w : String) (P : Program Val) (vs : List Val) (childId : String) :
    Option (Program Val) :=
  ((List.range vs.length).find? fun i => childWorkflowId w i == childId).bind (F.childAt? P vs)

/-- what the next await delivers, when `call` gives the results of the children -/
def deliver? (call : String → Program Val → Option Json) (w : String) (P : Program Val)
    (vs : List Val) : Option Val :=
  match P.next vs with
  | .activity f (.ok (.json input)) => some (F.body f input)
  | .sleep _ _ _ _ => some (F.ofJson .null)
  | .spawnChild _ (.ok _) => some (F.ofJson (.str (childWorkflowId w vs.length)))
  | .waitForSignal signalType => some (F.ofJson (F.signal w signalType))
  | .waitForChild childId => (F.child? w P vs childId).bind fun child =>
      (call childId child).map F.ofJson
  | _ => none

/-- the result of the workflow, when its awaits have delivered `vs` -/
def evaluate : Nat → String → Program Val → List Val → Option Json
  | 0, _, _, _ => none
  | n + 1, w, P, vs => (P.result? vs).or
      ((F.deliver? (fun childId child => evaluate n childId child []) w P vs).bind fun v =>
        evaluate n w P (vs ++ [v]))

def call (n : Nat) (w : String) (P : Program Val) : Option Json := F.evaluate n w P []

/-- each of these values is what the computation delivers after those before it -/
def Pass (w : String) (P : Program Val) (vs : List Val) : Prop :=
  ∀ us v, us ++ [v] <+: vs → ∃ n, F.deliver? (F.call n) w P us = some v

variable {F} {w : String} {P : Program Val} {vs us : List Val} {v : Val} {result : Json}

/-! ## fuel -/

theorem deliver?_mono {f g : String → Program Val → Option Json}
    (hfg : ∀ c child r, f c child = some r → g c child = some r)
    (h : F.deliver? f w P vs = some v) : F.deliver? g w P vs = some v := by
  unfold deliver? at h ⊢
  split at h
  case h_5 childId hnext =>
    obtain ⟨child, hchild, h⟩ := Option.bind_eq_some_iff.mp h
    obtain ⟨r, hr, rfl⟩ := Option.map_eq_some_iff.mp h
    rw [hchild, Option.bind_some, hfg childId child r hr]
    rfl
  all_goals exact h

theorem evaluate_succ (n : Nat) : F.evaluate (n + 1) w P vs = (P.result? vs).or
    ((F.deliver? (F.call n) w P vs).bind fun v => F.evaluate n w P (vs ++ [v])) := rfl

theorem evaluate_mono {n m : Nat} (hnm : n ≤ m) (h : F.evaluate n w P vs = some result) :
    F.evaluate m w P vs = some result := by
  induction n generalizing m w P vs result with
  | zero => cases h
  | succ n ih =>
    obtain ⟨m, rfl⟩ := Nat.exists_eq_succ_of_ne_zero (Nat.ne_zero_of_lt hnm)
    have hnm : n ≤ m := Nat.le_of_succ_le_succ hnm
    rw [evaluate_succ] at h ⊢
    cases hres : P.result? vs with
    | some r =>
      rw [hres] at h
      exact h
    | none =>
      rw [hres, Option.none_or] at h
      rw [Option.none_or]
      obtain ⟨v, hv, h⟩ := Option.bind_eq_some_iff.mp h
      rw [deliver?_mono (g := F.call m) (fun c child r => ih hnm) hv]
      exact ih hnm h

theorem call_mono {n m : Nat} (hnm : n ≤ m) (h : F.call n w P = some result) :
    F.call m w P = some result := evaluate_mono hnm h

theorem deliver?_fuel {n m : Nat} (hnm : n ≤ m) (h : F.deliver? (F.call n) w P vs = some v) :
    F.deliver? (F.call m) w P vs = some v := deliver?_mono (fun _ _ _ => call_mono hnm) h

/-- **A workflow has one result.** -/
theorem call_unique {n m : Nat} {result' : Json} (h : F.call n w P = some result)
    (h' : F.call m w P = some result') : result = result' := by
  have heq := (call_mono (Nat.le_max_left n m) h).symm.trans (call_mono (Nat.le_max_right n m) h')
  exact Option.some.inj heq

theorem deliver?_unique {n m : Nat} {v' : Val} (h : F.deliver? (F.call n) w P vs = some v)
    (h' : F.deliver? (F.call m) w P vs = some v') : v = v' := by
  have heq := (deliver?_fuel (Nat.le_max_left n m) h).symm.trans
    (deliver?_fuel (Nat.le_max_right n m) h')
  exact Option.some.inj heq

/-! ## the values of a computation -/

theorem pass_nil : F.Pass w P [] := by
  intro us v h
  have := h.length_le
  simp at this

theorem Pass.of_prefix (h : F.Pass w P vs) (hus : us <+: vs) : F.Pass w P us :=
  fun ws v hpre => h ws v (hpre.trans hus)

theorem Pass.snoc (h : F.Pass w P vs) {n : Nat} (hv : F.deliver? (F.call n) w P vs = some v) :
    F.Pass w P (vs ++ [v]) := by
  intro us u hpre
  rcases List.prefix_concat_iff.mp hpre with heq | hpre
  · obtain ⟨rfl, hu⟩ := List.append_inj' heq rfl
    obtain rfl := List.singleton_inj.mp hu
    exact ⟨n, hv⟩
  · exact h us u hpre

/-- **Two computations of one workflow deliver the same values.** -/
theorem Pass.prefix_or (h : F.Pass w P vs) (h' : F.Pass w P us) : vs <+: us ∨ us <+: vs := by
  induction vs using List.reverseRecOn with
  | nil => exact .inl List.nil_prefix
  | append_singleton vs v ih =>
    rcases ih (h.of_prefix (List.prefix_append vs [v])) with ⟨ws, rfl⟩ | hpre
    · cases ws with
      | nil =>
        rw [List.append_nil]
        exact .inr (List.prefix_append vs [v])
      | cons u ws =>
        obtain ⟨n, hv⟩ := h vs v List.prefix_rfl
        obtain ⟨m, hu⟩ := h' vs u ⟨ws, by rw [List.append_assoc, List.singleton_append]⟩
        obtain rfl := deliver?_unique hv hu
        exact .inl ⟨ws, by rw [List.append_assoc, List.singleton_append]⟩
    · exact .inr (hpre.trans (List.prefix_append vs [v]))

theorem result?_of_deliver? {call : String → Program Val → Option Json}
    (h : F.deliver? call w P vs = some v) : P.result? vs = none := by
  unfold deliver? at h
  unfold Program.result?
  split
  · rename_i r hr
    rw [hr] at h
    cases h
  · rfl

/-- **What the function returns at the end of a computation is the result.** -/
theorem Pass.evaluate (h : F.Pass w P vs) (hret : P.next vs = .ret (.ok result)) :
    ∃ n, F.call n w P = some result := by
  suffices ∀ ws us, us ++ ws = vs → ∃ n, F.evaluate n w P us = some result from this vs [] rfl
  intro ws
  induction ws with
  | nil =>
    rintro us hus
    rw [List.append_nil] at hus
    refine ⟨1, ?_⟩
    rw [evaluate_succ, hus, Program.result?, hret]
    rfl
  | cons v ws ih =>
    rintro us hus
    have hsplit : us ++ [v] ++ ws = vs := by rw [List.append_assoc, List.singleton_append, hus]
    obtain ⟨n, hn⟩ := ih (us ++ [v]) hsplit
    obtain ⟨m, hm⟩ := h us v ⟨ws, hsplit⟩
    refine ⟨max n m + 1, ?_⟩
    rw [evaluate_succ, result?_of_deliver? hm, Option.none_or,
      deliver?_fuel (Nat.le_max_right n m) hm]
    exact evaluate_mono (Nat.le_max_left n m) hn

/-! ## children -/

theorem child?_eq {i : Nat} (hi : i < vs.length) :
    F.child? w P vs (childWorkflowId w i) = F.childAt? P vs i := by
  have hfind : (List.range vs.length).find? (fun j => childWorkflowId w j == childWorkflowId w i)
      = some i := by
    refine List.find?_range_eq_some.mpr ⟨beq_self_eq_true _, List.mem_range.mpr hi, ?_⟩
    intro j hj
    rw [Bool.not_eq_true', beq_eq_false_iff_ne]
    exact fun heq => Nat.ne_of_lt hj (childWorkflowId_inj heq).2
  rw [child?, hfind]
  rfl

theorem lt_of_child? {i : Nat} {child : Program Val}
    (h : F.child? w P vs (childWorkflowId w i) = some child) : i < vs.length := by
  obtain ⟨j, hj, -⟩ := Option.bind_eq_some_iff.mp h
  have hmem := List.mem_of_find?_eq_some hj
  have heq : childWorkflowId w j = childWorkflowId w i :=
    beq_iff_eq.mp (List.find?_some (p := fun j => childWorkflowId w j == childWorkflowId w i) hj)
  rw [← (childWorkflowId_inj heq).2]
  exact List.mem_range.mp hmem

end Forest

end TemporalLight
