import TemporalLight.Serialization
import Mathlib

/-!
# Replayed results equal live results

`v.fits classes classOk keysOk T` says that `v` is a value of the annotation `T`, when `keysOk` says
which keys a dictionary may have.  With `Ann.admitsKeys`, which is `isinstance`, it is the type of
`v`; with `Ann.restoresKeys`, each key is made again of its text.  The two differ in a dictionary
with `bool` keys, because `bool('False')` is `True`, in a dictionary with `int` keys that has `True`
or `False` among them, and where a key of a subclass has another text than its base.

A dataclass instance is made by its constructor when it comes back: `v.rebuilt` is `v` with plain
keys and its instances made anew, from the inside out.

* `fromJsonSafe_toJsonSafe`  a value whose keys are restored comes back rebuilt
* `fits_of_restored`         a value that comes back equal has such keys
* `replayed_results`         both, for every annotation and every value
* `rebuilds_of_generated`    without `__post_init__` and `__eq__`, a rebuilt value is equal
-/

set_option linter.unusedSectionVars false

namespace TemporalLight

theorem Except.bind_eq_ok {ε α β : Type} {x : Except ε α} {f : α → Except ε β} {b : β}
    (h : x >>= f = .ok b) : ∃ a, x = .ok a ∧ f a = .ok b := by
  cases x with
  | error e => cases h
  | ok a => exact ⟨a, rfl, h⟩

theorem Except.map_eq_ok {ε α β : Type} {x : Except ε α} {f : α → β} {b : β}
    (h : x.map f = .ok b) : ∃ a, x = .ok a ∧ f a = b := by
  cases x with
  | error e => cases h
  | ok a => exact ⟨a, rfl, Except.ok.inj h⟩

/-! ## induction over values -/

section
variable {P : PyVal → Prop} (none : P .none) (bool : ∀ b, P (.bool b)) (int : ∀ n, P (.int n))
  (float : ∀ x, P (.float x)) (str : ∀ s, P (.str s))
  (list : ∀ items, (∀ x ∈ items, P x) → P (.list items))
  (tuple : ∀ items, (∀ x ∈ items, P x) → P (.tuple items))
  (dict : ∀ items, (∀ x ∈ items, P x.2) → P (.dict items))
  (dataclass : ∀ cls fields, (∀ x ∈ fields, P x.2) → P (.dataclass cls fields))
  (model : ∀ cls dump, P (.model cls dump))
include none bool int float str list tuple dict dataclass model

mutual
@[elab_as_elim]
theorem PyVal.induct : ∀ v, P v
  | .none => none
  | .bool b => bool b
  | .int n => int n
  | .float x => float x
  | .str s => str s
  | .list items => list items (PyVal.induct_all items)
  | .tuple items => tuple items (PyVal.induct_all items)
  | .dict items => dict items (PyVal.induct_items items)
  | .dataclass cls fields => dataclass cls fields (PyVal.induct_fields fields)
  | .model cls dump => model cls dump

theorem PyVal.induct_all : ∀ (items : List PyVal), ∀ x ∈ items, P x
  | [] => fun _ h => absurd h List.not_mem_nil
  | x :: xs => List.forall_mem_cons.mpr ⟨PyVal.induct x, PyVal.induct_all xs⟩

theorem PyVal.induct_items : ∀ (items : List (PyKey × PyVal)), ∀ x ∈ items, P x.2
  | [] => fun _ h => absurd h List.not_mem_nil
  | (_, x) :: xs => List.forall_mem_cons.mpr ⟨PyVal.induct x, PyVal.induct_items xs⟩

theorem PyVal.induct_fields : ∀ (fields : List (String × PyVal)), ∀ x ∈ fields, P x.2
  | [] => fun _ h => absurd h List.not_mem_nil
  | (_, x) :: xs => List.forall_mem_cons.mpr ⟨PyVal.induct x, PyVal.induct_fields xs⟩
end

end

/-! ## keys -/

/-- an instance of a subclass, as its base -/
def PyKey.plain : PyKey → PyKey
  | .intOf base _ => .int base
  | .floatOf base _ => .float base
  | .strOf base _ => .str base
  | k => k

def PyKey.isPlain : PyKey → Bool
  | .intOf _ _ => false
  | .floatOf _ _ => false
  | .strOf _ _ => false
  | _ => true

theorem PyKey.pyEq_refl (k : PyKey) : (k == k) = true := by
  show k.pyEq k = true
  cases k <;> simp [PyKey.pyEq, PyKey.number?, PyKey.string?]

theorem PyKey.pyEq_comm (k k' : PyKey) : (k == k') = (k' == k) := by
  show k.pyEq k' = k'.pyEq k
  cases k <;> cases k' <;> simp only [PyKey.pyEq, PyKey.number?, PyKey.string?] <;>
    exact Bool.beq_comm

theorem PyKey.plain_plain (k : PyKey) : k.plain.plain = k.plain := by
  cases k <;> rfl

theorem PyKey.pyEq_plain (k k' : PyKey) : (k.plain == k'.plain) = (k == k') := by
  cases k <;> cases k' <;> rfl

/-- the key is an instance of the key type: `str`, `int`, `float` or `bool` -/
def Ann.admitsKey : Ann → PyKey → Bool
  | .str, .str _ => true
  | .str, .strOf _ _ => true
  | .int, .int _ => true
  | .int, .intOf _ _ => true
  -- `bool` is a subclass of `int`
  | .int, .bool _ => true
  | .float, .float _ => true
  | .float, .floatOf _ _ => true
  | .bool, .bool _ => true
  | _, _ => false

/-- the key type makes a key of its text that equals it -/
def Ann.restoresKey (numerals : Numerals) : Ann → PyKey → Bool
  | .str, .str _ => true
  | .str, .strOf base text => text == base
  | .int, .int _ => true
  | .int, .intOf base text => (numerals.parseInt text).toOption == some base
  | .float, .float _ => true
  | .float, .floatOf base text => (numerals.parseFloat text).toOption == some base
  | .bool, .bool b => b
  | _, _ => false

def Ann.admitsKeys (key : Ann) (keys : List PyKey) : Bool := keys.all key.admitsKey

def Ann.restoresKeys (numerals : Numerals) (key : Ann) (keys : List PyKey) : Bool :=
  keys.all (key.restoresKey numerals)

/-- no key of a subclass has the text of another key -/
def Ann.tellsApart (numerals : Numerals) (key : Ann) (keys : List PyKey) : Bool :=
  key.admitsKeys keys && keys.all fun k => k.isPlain || keys.all fun k' =>
    (restoreDictKey numerals (k.text numerals) key).toOption.all fun made =>
      !(k' == made) || k' == k

/-! ## values of an annotation -/

section
variable (classes : Classes) (classOk : String → String → Bool)
  (keysOk : Ann → List PyKey → Bool)

mutual
def PyVal.fits : PyVal → Ann → Bool
  | .none, .none => true
  | .bool _, .bool => true
  | .bool _, .int => true
  | .int _, .int => true
  | .float _, .float => true
  | .str _, .str => true
  | .list items, .list ann => fitsAll items fun _ => ann
  | .tuple items, .tuple anns => items.length == anns.length && fitsAll items (tupleItemAnn anns)
  | .tuple items, .tupleOf ann => fitsAll items fun _ => ann
  | .dict items, .dict key value =>
    decide (Dict.Distinct items) && keysOk key (items.map (·.1)) && fitsItems items value
  | .dataclass cls fields, .dataclass cls' =>
    classOk cls cls' && fields.map (·.1) == (classes.fields cls).map Field.name
      && fitsFields fields cls
  | _, _ => false
termination_by structural v => v

def PyVal.fitsAll : List PyVal → (Nat → Ann) → Bool
  | [], _ => true
  | x :: xs, anns => PyVal.fits x (anns 0) && fitsAll xs fun i => anns (i + 1)
termination_by structural items => items

def PyVal.fitsItems : List (PyKey × PyVal) → Ann → Bool
  | [], _ => true
  | (_, x) :: xs, value => PyVal.fits x value && fitsItems xs value
termination_by structural items => items

def PyVal.fitsFields : List (String × PyVal) → String → Bool
  | [], _ => true
  | (n, x) :: xs, cls => PyVal.fits x (classes.annOf cls n) && fitsFields xs cls
termination_by structural fields => fields
end

end

section
variable (classes : Classes)

mutual
/-- the value, its keys plain and its dataclass instances made anew -/
def PyVal.rebuilt : PyVal → Except PyExc PyVal
  | .none => .ok .none
  | .bool b => .ok (.bool b)
  | .int n => .ok (.int n)
  | .float x => .ok (.float x)
  | .str s => .ok (.str s)
  | .list items => (rebuiltAll items).map .list
  | .tuple items => (rebuiltAll items).map .tuple
  | .dict items => (rebuiltItems items).map .dict
  | .dataclass cls fields => rebuiltFields fields >>= classes.construct cls
  | .model cls dump => .ok (.model cls dump)
termination_by structural v => v

def PyVal.rebuiltAll : List PyVal → Except PyExc (List PyVal)
  | [] => .ok []
  | x :: xs => do
    let y ← PyVal.rebuilt x
    let ys ← rebuiltAll xs
    return y :: ys
termination_by structural items => items

def PyVal.rebuiltItems : List (PyKey × PyVal) → Except PyExc (List (PyKey × PyVal))
  | [] => .ok []
  | (k, x) :: xs => do
    let y ← PyVal.rebuilt x
    let ys ← rebuiltItems xs
    return (k.plain, y) :: ys
termination_by structural items => items

def PyVal.rebuiltFields : List (String × PyVal) → Except PyExc (List (String × PyVal))
  | [] => .ok []
  | (n, x) :: xs => do
    let y ← PyVal.rebuilt x
    let ys ← rebuiltFields xs
    return (n, y) :: ys
termination_by structural fields => fields
end

/-- making the instances anew succeeds, and gives a value that equals the old one -/
def PyVal.Rebuilds (v : PyVal) : Prop :=
  ∃ v', v.rebuilt classes = .ok v' ∧ v'.pyEq classes v = true

end

/-- each `__eq__` is the generated one, and a constructor may check its fields but keeps them -/
structure Classes.Ordinary (classes : Classes) : Prop where
  eq : ∀ cls cls', classes.eq cls cls' = none
  init : ∀ {cls kwargs fields}, kwargs.map (·.1) = (classes.fields cls).map Field.name →
    classes.init cls kwargs = .ok fields → fields = kwargs

/-! ## the lists, item by item -/

section
variable {classes : Classes} {numerals : Numerals} {classOk : String → String → Bool}
  {keysOk : Ann → List PyKey → Bool}

theorem restoreAlong_of_fits {v : PyVal} {ann : Ann} (h : v.fits classes classOk keysOk ann = true)
    (value : Json) (restore : Ann → Except PyExc PyVal) :
    restoreAlong classes value restore ann = restore ann := by
  cases ann with
  | union members => cases v <;> cases h
  | _ => rfl

theorem toJsonSafeItems_eq (items : List (PyKey × PyVal)) : toJsonSafeItems numerals items
    = items.map fun item => (item.1.text numerals, toJsonSafe numerals item.2) := by
  induction items with
  | nil => rfl
  | cons item items ih => rw [toJsonSafeItems, ih, List.map_cons]

theorem PyVal.fitsAll_mem {items : List PyVal} {anns : Nat → Ann}
    (h : fitsAll classes classOk keysOk items anns = true) {x : PyVal} (hx : x ∈ items) :
    ∃ ann, x.fits classes classOk keysOk ann = true := by
  induction items generalizing anns with
  | nil => cases hx
  | cons y ys ih =>
    rw [fitsAll, Bool.and_eq_true] at h
    rcases List.mem_cons.mp hx with rfl | hx
    · exact ⟨_, h.1⟩
    · exact ih h.2 hx

theorem PyVal.fitsItems_iff {items : List (PyKey × PyVal)} {value : Ann} :
    fitsItems classes classOk keysOk items value = true
      ↔ ∀ item ∈ items, item.2.fits classes classOk keysOk value = true := by
  induction items with
  | nil => simp [fitsItems]
  | cons item items ih => simp [fitsItems, ih]

theorem PyVal.fitsFields_iff {fields : List (String × PyVal)} {cls : String} :
    fitsFields classes classOk keysOk fields cls = true
      ↔ ∀ f ∈ fields, f.2.fits classes classOk keysOk (classes.annOf cls f.1) = true := by
  induction fields with
  | nil => simp [fitsFields]
  | cons f fields ih => simp [fitsFields, ih]

/-! ## keys and their texts -/

theorem toOption_eq_some {α : Type} [DecidableEq α] {x : Except PyExc α} {a : α}
    (h : (x.toOption == some a) = true) : x = .ok a := by
  cases x with
  | error e => cases h
  | ok b => rw [Option.some.inj (eq_of_beq h)]

theorem restoreDictKey_text {key : Ann} {k : PyKey} (h : key.restoresKey numerals k = true) :
    restoreDictKey numerals (k.text numerals) key = .ok k.plain := by
  cases key <;> cases k <;> simp only [Ann.restoresKey, Bool.false_eq_true] at h
  · rw [h]
    rfl
  · rw [restoreDictKey, PyKey.text, numerals.parseInt_text]
    rfl
  · rw [restoreDictKey, PyKey.text, toOption_eq_some h]
    rfl
  · rw [restoreDictKey, PyKey.text, numerals.parseFloat_text]
    rfl
  · rw [restoreDictKey, PyKey.text, toOption_eq_some h]
    rfl
  · rfl
  · rw [PyKey.text, eq_of_beq h]
    rfl

theorem PyKey.eq_of_text {key : Ann} {k k' : PyKey} (h : key.restoresKey numerals k = true)
    (h' : key.restoresKey numerals k' = true) (heq : k.text numerals = k'.text numerals) :
    (k == k') = true := by
  have hk := restoreDictKey_text h
  rw [heq, restoreDictKey_text h'] at hk
  rw [← PyKey.pyEq_plain, ← Except.ok.inj hk, PyKey.pyEq_refl]

theorem ofItems_toJsonSafeItems {items : List (PyKey × PyVal)} {key : Ann}
    (hdistinct : Dict.Distinct items)
    (hkeys : ∀ item ∈ items, key.restoresKey numerals item.1 = true) :
    Dict.ofItems (toJsonSafeItems numerals items) = toJsonSafeItems numerals items := by
  refine Dict.ofItems_of_distinct ?_
  rw [toJsonSafeItems_eq]
  refine List.pairwise_map.mpr (hdistinct.imp_of_mem fun {a b} ha hb hne => ?_)
  refine beq_eq_false_iff_ne.mpr fun heq => ?_
  rw [PyKey.eq_of_text (hkeys a ha) (hkeys b hb) heq] at hne
  cases hne

theorem PyVal.rebuiltItems_keys {items items' : List (PyKey × PyVal)}
    (h : rebuiltItems classes items = .ok items') :
    items'.map (·.1) = items.map fun item => item.1.plain := by
  induction items generalizing items' with
  | nil =>
    obtain rfl := Except.ok.inj h
    rfl
  | cons item items ih =>
    rw [rebuiltItems] at h
    obtain ⟨y, -, h⟩ := Except.bind_eq_ok h
    obtain ⟨ys, hys, h⟩ := Except.bind_eq_ok h
    obtain rfl := Except.ok.inj h
    rw [List.map_cons, List.map_cons, ih hys]

theorem PyVal.distinct_rebuiltItems {items items' : List (PyKey × PyVal)}
    (hdistinct : Dict.Distinct items) (h : rebuiltItems classes items = .ok items') :
    Dict.Distinct items' := by
  rw [Dict.distinct_iff, rebuiltItems_keys h]
  refine List.pairwise_map.mpr (hdistinct.imp fun {a b} hne => ?_)
  rw [PyKey.pyEq_plain]
  exact hne

/-! ## there and back -/

theorem restoreItems_toJsonSafeAll {items : List PyVal} {anns : Nat → Ann}
    (ih : ∀ x ∈ items, ∀ ann, x.fits classes (· == ·) (Ann.restoresKeys numerals) ann = true →
      restoreMember classes numerals (toJsonSafe numerals x) ann = x.rebuilt classes)
    (h : PyVal.fitsAll classes (· == ·) (Ann.restoresKeys numerals) items anns = true) :
    restoreItems classes numerals (toJsonSafeAll numerals items) anns
      = PyVal.rebuiltAll classes items := by
  induction items generalizing anns with
  | nil => rfl
  | cons x xs ih' =>
    rw [PyVal.fitsAll, Bool.and_eq_true] at h
    rw [toJsonSafeAll, restoreItems, restoreAlong_of_fits h.1, ih x List.mem_cons_self _ h.1,
      ih' (fun y hy => ih y (List.mem_cons_of_mem _ hy)) h.2, PyVal.rebuiltAll]

theorem restoreDict_toJsonSafeItems {items : List (PyKey × PyVal)} {key value : Ann}
    (ih : ∀ x ∈ items, restoreMember classes numerals (toJsonSafe numerals x.2) value
      = x.2.rebuilt classes)
    (hkeys : ∀ x ∈ items, key.restoresKey numerals x.1 = true)
    (h : ∀ x ∈ items, x.2.fits classes (· == ·) (Ann.restoresKeys numerals) value = true) :
    restoreDict classes numerals (toJsonSafeItems numerals items) key value
      = PyVal.rebuiltItems classes items := by
  induction items with
  | nil => rfl
  | cons x xs ih' =>
    rw [List.forall_mem_cons] at ih hkeys h
    rw [toJsonSafeItems, restoreDict, restoreDictKey_text hkeys.1, restoreAlong_of_fits h.1, ih.1,
      ih' ih.2 hkeys.2 h.2, PyVal.rebuiltItems]
    rfl

theorem restoreFields_toJsonSafeFields {fields : List (String × PyVal)} {cls : String}
    (ih : ∀ x ∈ fields, restoreMember classes numerals (toJsonSafe numerals x.2)
      (classes.annOf cls x.1) = x.2.rebuilt classes)
    (h : ∀ x ∈ fields, x.2.fits classes (· == ·) (Ann.restoresKeys numerals)
      (classes.annOf cls x.1) = true) :
    restoreFields classes numerals (toJsonSafeFields numerals fields) cls
      = PyVal.rebuiltFields classes fields := by
  induction fields with
  | nil => rfl
  | cons x xs ih' =>
    rw [List.forall_mem_cons] at ih h
    rw [toJsonSafeFields, restoreFields, restoreAlong_of_fits h.1, ih.1, ih' ih.2 h.2,
      PyVal.rebuiltFields]

/-- **A value whose keys are restored comes back rebuilt.** -/
theorem restoreMember_toJsonSafe (v : PyVal) : ∀ ann,
    v.fits classes (· == ·) (Ann.restoresKeys numerals) ann = true →
    restoreMember classes numerals (toJsonSafe numerals v) ann = v.rebuilt classes := by
  induction v using PyVal.induct with
  | none =>
    intro ann _
    cases ann <;> rfl
  | bool b =>
    intro ann _
    cases ann <;> rfl
  | int n =>
    intro ann _
    cases ann <;> rfl
  | float x =>
    intro ann _
    cases ann <;> rfl
  | str s =>
    intro ann _
    cases ann <;> rfl
  | list items ih =>
    intro ann h
    cases ann <;> simp only [PyVal.fits, Bool.false_eq_true] at h
    rw [toJsonSafe, restoreMember, restoreItems_toJsonSafeAll ih h, PyVal.rebuilt]
  | tuple items ih =>
    intro ann h
    cases ann <;> simp only [PyVal.fits, Bool.false_eq_true, Bool.and_eq_true] at h
    · rw [toJsonSafe, restoreMember, restoreItems_toJsonSafeAll ih h.2, PyVal.rebuilt]
    · rw [toJsonSafe, restoreMember, restoreItems_toJsonSafeAll ih h, PyVal.rebuilt]
  | dict items ih =>
    intro ann h
    cases ann <;> simp only [PyVal.fits, Bool.false_eq_true, Bool.and_eq_true,
      decide_eq_true_eq] at h
    rename_i key value
    obtain ⟨⟨hdistinct, hkeys⟩, h⟩ := h
    rw [PyVal.fitsItems_iff] at h
    have hkeys : ∀ item ∈ items, key.restoresKey numerals item.1 = true := fun item hitem =>
      List.all_eq_true.mp hkeys item.1 (List.mem_map_of_mem hitem)
    rw [toJsonSafe, ofItems_toJsonSafeItems hdistinct hkeys, restoreMember,
      restoreDict_toJsonSafeItems (fun x hx => ih x hx _ (h x hx)) hkeys h, PyVal.rebuilt]
    cases hrebuilt : PyVal.rebuiltItems classes items with
    | error e => rfl
    | ok items' =>
      show Except.ok (PyVal.dict (Dict.ofItems items')) = _
      rw [Dict.ofItems_of_distinct (PyVal.distinct_rebuiltItems hdistinct hrebuilt)]
      rfl
  | dataclass cls fields ih =>
    intro ann h
    cases ann <;> simp only [PyVal.fits, Bool.false_eq_true, Bool.and_eq_true, beq_iff_eq] at h
    obtain ⟨⟨rfl, hnames⟩, h⟩ := h
    rw [PyVal.fitsFields_iff] at h
    rw [toJsonSafe, restoreMember,
      restoreFields_toJsonSafeFields (fun x hx => ih x hx _ (h x hx)) h, PyVal.rebuilt]
  | model cls dump =>
    intro ann h
    cases ann <;> cases h

theorem fromJsonSafe_toJsonSafe {v : PyVal} {ann : Ann}
    (h : v.fits classes (· == ·) (Ann.restoresKeys numerals) ann = true) :
    fromJsonSafe classes numerals (toJsonSafe numerals v) ann = v.rebuilt classes := by
  rw [fromJsonSafe, restoreAlong_of_fits h, restoreMember_toJsonSafe v ann h]

/-! ## and only then -/

theorem restoreItems_ok {x : Json} {xs : List Json} {anns : Nat → Ann} {items : List PyVal}
    (h : restoreItems classes numerals (x :: xs) anns = .ok items) : ∃ y ys, items = y :: ys
      ∧ restoreAlong classes x (restoreMember classes numerals x) (anns 0) = .ok y
      ∧ restoreItems classes numerals xs (fun i => anns (i + 1)) = .ok ys := by
  rw [restoreItems] at h
  obtain ⟨y, hy, h⟩ := Except.bind_eq_ok h
  obtain ⟨ys, hys, h⟩ := Except.bind_eq_ok h
  exact ⟨y, ys, (Except.ok.inj h).symm, hy, hys⟩

theorem restoreDict_ok {items : List (PyKey × PyVal)} {key value : Ann}
    {restored : List (PyKey × PyVal)}
    (h : restoreDict classes numerals (toJsonSafeItems numerals items) key value = .ok restored) :
    List.Forall₂ (fun item item' => restoreDictKey numerals (item.1.text numerals) key = .ok item'.1
      ∧ restoreAlong classes (toJsonSafe numerals item.2) (restoreMember classes numerals
        (toJsonSafe numerals item.2)) value = .ok item'.2) items restored := by
  induction items generalizing restored with
  | nil =>
    obtain rfl := Except.ok.inj h
    exact .nil
  | cons item items ih =>
    rw [toJsonSafeItems, restoreDict] at h
    obtain ⟨k, hk, h⟩ := Except.bind_eq_ok h
    obtain ⟨y, hy, h⟩ := Except.bind_eq_ok h
    obtain ⟨ys, hys, h⟩ := Except.bind_eq_ok h
    obtain rfl := Except.ok.inj h
    exact .cons ⟨hk, hy⟩ (ih hys)

theorem restoreDict_length {fields : List (String × Json)} {key value : Ann}
    {restored : List (PyKey × PyVal)}
    (h : restoreDict classes numerals fields key value = .ok restored) :
    restored.length = fields.length := by
  induction fields generalizing restored with
  | nil =>
    obtain rfl := Except.ok.inj h
    rfl
  | cons f fields ih =>
    rw [restoreDict] at h
    obtain ⟨k, -, h⟩ := Except.bind_eq_ok h
    obtain ⟨y, -, h⟩ := Except.bind_eq_ok h
    obtain ⟨ys, hys, h⟩ := Except.bind_eq_ok h
    obtain rfl := Except.ok.inj h
    exact congrArg (· + 1) (ih hys)

theorem restoreFields_ok {fields : List (String × PyVal)} {cls : String}
    {restored : List (String × PyVal)}
    (h : restoreFields classes numerals (toJsonSafeFields numerals fields) cls = .ok restored) :
    List.Forall₂ (fun f f' => f'.1 = f.1
      ∧ restoreAlong classes (toJsonSafe numerals f.2) (restoreMember classes numerals
        (toJsonSafe numerals f.2)) (classes.annOf cls f.1) = .ok f'.2) fields restored := by
  induction fields generalizing restored with
  | nil =>
    obtain rfl := Except.ok.inj h
    exact .nil
  | cons f fields ih =>
    rw [toJsonSafeFields, restoreFields] at h
    obtain ⟨y, hy, h⟩ := Except.bind_eq_ok h
    obtain ⟨ys, hys, h⟩ := Except.bind_eq_ok h
    obtain rfl := Except.ok.inj h
    exact .cons ⟨rfl, hy⟩ (ih hys)

theorem restored_of_mem {R : PyKey × PyVal → PyKey × PyVal → Prop}
    {items restored : List (PyKey × PyVal)} (h : List.Forall₂ R items restored)
    {item : PyKey × PyVal} (hitem : item ∈ items) : ∃ item' ∈ restored, R item item' := by
  induction h with
  | nil => cases hitem
  | cons hr _ ih =>
    rcases List.mem_cons.mp hitem with rfl | hitem
    · exact ⟨_, List.mem_cons_self, hr⟩
    · obtain ⟨item', hitem', hr'⟩ := ih hitem
      exact ⟨item', List.mem_cons_of_mem _ hitem', hr'⟩

theorem map_fst_eq {γ : Type} {xs ys : List (γ × PyVal)}
    (h : List.Forall₂ (fun a b => b.1 = a.1) xs ys) : ys.map (·.1) = xs.map (·.1) := by
  induction h with
  | nil => rfl
  | cons hab _ ih => rw [List.map_cons, List.map_cons, hab, ih]

theorem PyVal.pyEqItems_mem {xs ys : List (PyKey × PyVal)} (h : pyEqItems classes xs ys = true)
    {a : PyKey × PyVal} (ha : a ∈ xs) :
    ∃ b ∈ ys, (b.1 == a.1) = true ∧ a.2.pyEq classes b.2 = true := by
  induction xs with
  | nil => cases ha
  | cons x xs ih =>
    rw [pyEqItems, Bool.and_eq_true, List.any_eq_true] at h
    rcases List.mem_cons.mp ha with rfl | ha
    · obtain ⟨b, hb, heq⟩ := h.1
      exact ⟨b, hb, Bool.and_eq_true_iff.mp heq⟩
    · exact ih h.2 ha

theorem restoreDictKey_bool {k k' : PyKey} (hk : Ann.bool.admitsKey k = true)
    (h : restoreDictKey numerals (k.text numerals) .bool = .ok k') : k' = .bool true := by
  cases k <;> simp only [Ann.admitsKey, Bool.false_eq_true] at hk
  rename_i b
  cases b <;> exact (Except.ok.inj h).symm

/-- the key that is made of the text of a key of a subclass equals it -/
theorem made_of_restored {items restored : List (PyKey × PyVal)} {key : Ann}
    (hdistinct : Dict.Distinct items) (hkeys : key.tellsApart numerals (items.map (·.1)) = true)
    (hrestored : List.Forall₂ (fun item item' =>
      restoreDictKey numerals (item.1.text numerals) key = .ok item'.1) items restored)
    (heq : PyVal.pyEqItems classes restored items = true) {item : PyKey × PyVal}
    (hitem : item ∈ items) (hplain : item.1.isPlain = false) :
    ∃ made, restoreDictKey numerals (item.1.text numerals) key = .ok made
      ∧ (item.1 == made) = true := by
  rw [Ann.tellsApart, Bool.and_eq_true] at hkeys
  obtain ⟨item', hitem', hmade⟩ := restored_of_mem hrestored hitem
  obtain ⟨b, hb, hbmade, -⟩ := PyVal.pyEqItems_mem heq hitem'
  have hall := List.all_eq_true.mp hkeys.2 item.1 (List.mem_map_of_mem hitem)
  rw [hplain, Bool.false_or] at hall
  have hsame := List.all_eq_true.mp hall b.1 (List.mem_map_of_mem hb)
  rw [hmade] at hsame
  have hsame : (!(b.1 == item'.1) || b.1 == item.1) = true := hsame
  rw [hbmade, Bool.not_true, Bool.false_or] at hsame
  rw [hdistinct.eq_of_key PyKey.pyEq_comm hb hitem hsame] at hbmade
  exact ⟨item'.1, hmade, hbmade⟩

/-- restored keys that are all `True` are one, and the only key of the dictionary equals it -/
theorem true_of_restored {items restored : List (PyKey × PyVal)}
    (hdistinct : Dict.Distinct restored) (htrue : ∀ a ∈ restored, a.1 = .bool true)
    (hrestored : items.length = restored.length)
    (heq : PyVal.pyEqItems classes restored items = true) {item : PyKey × PyVal}
    (hitem : item ∈ items) : (item.1 == .bool true) = true := by
  match restored, items with
  | [], [] => cases hitem
  | [a], [_] =>
    obtain ⟨b, hb, hkey, -⟩ := PyVal.pyEqItems_mem heq List.mem_cons_self
    rw [List.mem_singleton.mp hitem, ← List.mem_singleton.mp hb, ← htrue a List.mem_cons_self]
    exact hkey
  | a :: c :: _, _ =>
    have hne := (List.pairwise_cons.mp hdistinct).1 c List.mem_cons_self
    rw [htrue a List.mem_cons_self, htrue c (List.mem_cons_of_mem _ List.mem_cons_self),
      PyKey.pyEq_refl] at hne
    cases hne

/-- the restored keys stand for the keys of the dictionary, so they are restored as themselves -/
theorem restoresKey_of_restored {items restored : List (PyKey × PyVal)} {key : Ann}
    (hdistinct : Dict.Distinct items) (hdistinct' : Dict.Distinct restored)
    (hkeys : key.tellsApart numerals (items.map (·.1)) = true)
    (hrestored : List.Forall₂ (fun item item' =>
      restoreDictKey numerals (item.1.text numerals) key = .ok item'.1) items restored)
    (heq : PyVal.pyEqItems classes restored items = true) :
    ∀ item ∈ items, key.restoresKey numerals item.1 = true := by
  have hadmits : ∀ item ∈ items, key.admitsKey item.1 = true := fun item hitem =>
    List.all_eq_true.mp (Bool.and_eq_true_iff.mp hkeys).1 item.1 (List.mem_map_of_mem hitem)
  intro item hitem
  have hk := hadmits item hitem
  have hmade := made_of_restored hdistinct hkeys hrestored heq hitem
  obtain ⟨k, x⟩ := item
  cases key <;> cases k <;> simp only [Ann.admitsKey, Bool.false_eq_true] at hk <;>
    simp only [Ann.restoresKey]
  case str.strOf base text =>
    obtain ⟨made, hmade, hequal⟩ := hmade rfl
    obtain rfl := Except.ok.inj hmade
    exact beq_iff_eq.mpr (eq_of_beq (a := base) (b := text) hequal).symm
  case int.intOf base text =>
    obtain ⟨made, hmade, hequal⟩ := hmade rfl
    obtain ⟨n, hparse, rfl⟩ := Except.map_eq_ok hmade
    have hparse : numerals.parseInt text = .ok n := hparse
    have hbase : (base : ℚ) = n := eq_of_beq hequal
    rw [hparse, Int.cast_inj.mp hbase]
    exact beq_self_eq_true _
  case float.floatOf base text =>
    obtain ⟨made, hmade, hequal⟩ := hmade rfl
    obtain ⟨x', hparse, rfl⟩ := Except.map_eq_ok hmade
    have hparse : numerals.parseFloat text = .ok x' := hparse
    have hbase : base = x' := eq_of_beq hequal
    rw [hparse, hbase]
    exact beq_self_eq_true _
  case int.bool b =>
    obtain ⟨item', -, hrest⟩ := restored_of_mem hrestored hitem
    cases hparse : numerals.parseInt (if b then "True" else "False") with
    | ok n => exact absurd hparse (numerals.parseInt_bool b n)
    | error e =>
      rw [restoreDictKey, PyKey.text, hparse] at hrest
      cases hrest
  case bool.bool b =>
    have htrue : ∀ a ∈ restored, a.1 = .bool true := fun a ha => by
      obtain ⟨d, hd, hda⟩ := restored_of_mem hrestored.flip ha
      exact restoreDictKey_bool (hadmits d hd) hda
    have hkey := true_of_restored hdistinct' htrue hrestored.length_eq heq hitem
    cases b with
    | true => rfl
    | false =>
      have hne : (PyKey.bool false == PyKey.bool true) = false := by decide
      exact absurd (hne.symm.trans hkey) (by decide)

/-- a dictionary that is restored with all its items has lost none on the way -/
theorem lossless_of_length {items restored : List (PyKey × PyVal)} {key value : Ann}
    (h : restoreDict classes numerals (Dict.ofItems (toJsonSafeItems numerals items)) key value
      = .ok restored) (hlen : (Dict.ofItems restored).length = items.length) :
    Dict.ofItems (toJsonSafeItems numerals items) = toJsonSafeItems numerals items
      ∧ Dict.ofItems restored = restored := by
  have htexts : (toJsonSafeItems numerals items).length = items.length := by
    rw [toJsonSafeItems_eq, List.length_map]
  have hjson := Dict.length_ofItems (toJsonSafeItems numerals items)
  have hdict := Dict.length_ofItems restored
  have hsame := restoreDict_length h
  exact ⟨Dict.ofItems_of_length (by omega), Dict.ofItems_of_length (by omega)⟩

variable (classes numerals) in
/-- the value comes back equal only if its keys are restored -/
def PyVal.NeedsKeys (v : PyVal) : Prop := ∀ (ann : Ann) (v' : PyVal),
  v.fits classes classes.isSubclass (Ann.tellsApart numerals) ann = true →
  restoreMember classes numerals (toJsonSafe numerals v) ann = .ok v' →
  v'.pyEq classes v = true →
  v.fits classes (· == ·) (Ann.restoresKeys numerals) ann = true

theorem fitsAll_of_restored {items items' : List PyVal} {anns : Nat → Ann}
    (ih : ∀ x ∈ items, x.NeedsKeys classes numerals)
    (h : PyVal.fitsAll classes classes.isSubclass (Ann.tellsApart numerals) items anns = true)
    (hrest : restoreItems classes numerals (toJsonSafeAll numerals items) anns = .ok items')
    (heq : PyVal.pyEqAll classes items' items = true) :
    PyVal.fitsAll classes (· == ·) (Ann.restoresKeys numerals) items anns = true := by
  induction items generalizing anns items' with
  | nil => rfl
  | cons x xs ih' =>
    rw [PyVal.fitsAll, Bool.and_eq_true] at h
    obtain ⟨y, ys, rfl, hy, hys⟩ := restoreItems_ok hrest
    rw [PyVal.pyEqAll, Bool.and_eq_true] at heq
    rw [restoreAlong_of_fits h.1] at hy
    rw [PyVal.fitsAll, Bool.and_eq_true]
    exact ⟨ih x List.mem_cons_self _ y h.1 hy heq.1,
      ih' (fun z hz => ih z (List.mem_cons_of_mem _ hz)) h.2 hys heq.2⟩

theorem fitsFields_of_restored {cls : String} {fields restored : List (String × PyVal)}
    (ih : ∀ x ∈ fields, x.2.NeedsKeys classes numerals)
    (h : ∀ x ∈ fields, x.2.fits classes classes.isSubclass (Ann.tellsApart numerals)
      (classes.annOf cls x.1) = true)
    (hrest : List.Forall₂ (fun f f' => f'.1 = f.1
      ∧ restoreAlong classes (toJsonSafe numerals f.2) (restoreMember classes numerals
        (toJsonSafe numerals f.2)) (classes.annOf cls f.1) = .ok f'.2) fields restored)
    (heq : PyVal.pyEqFields classes restored fields = true) :
    ∀ x ∈ fields, x.2.fits classes (· == ·) (Ann.restoresKeys numerals)
      (classes.annOf cls x.1) = true := by
  induction hrest with
  | nil => exact fun x hx => absurd hx List.not_mem_nil
  | @cons x y xs ys hr _ ih' =>
    rw [List.forall_mem_cons] at ih h
    rw [PyVal.pyEqFields, Bool.and_eq_true, Bool.and_eq_true] at heq
    have hrest := hr.2
    rw [restoreAlong_of_fits h.1] at hrest
    exact List.forall_mem_cons.mpr ⟨ih.1 _ _ h.1 hrest heq.1.2, ih' ih.2 h.2 heq.2⟩

/-- **A value that comes back equal has keys that are restored.** -/
theorem fits_of_restored (hclasses : classes.Ordinary) (v : PyVal) :
    v.NeedsKeys classes numerals := by
  induction v using PyVal.induct with
  | none => exact fun ann _ h _ _ => by cases ann <;> first | rfl | cases h
  | bool b => exact fun ann _ h _ _ => by cases ann <;> first | rfl | cases h
  | int n => exact fun ann _ h _ _ => by cases ann <;> first | rfl | cases h
  | float x => exact fun ann _ h _ _ => by cases ann <;> first | rfl | cases h
  | str s => exact fun ann _ h _ _ => by cases ann <;> first | rfl | cases h
  | list items ih =>
    intro ann v' h hrest heq
    cases ann <;> simp only [PyVal.fits, Bool.false_eq_true] at h
    rw [toJsonSafe, restoreMember] at hrest
    obtain ⟨items', hitems', rfl⟩ := Except.map_eq_ok hrest
    exact fitsAll_of_restored ih h hitems' heq
  | tuple items ih =>
    intro ann v' h hrest heq
    cases ann <;> simp only [PyVal.fits, Bool.false_eq_true, Bool.and_eq_true] at h
    · rw [toJsonSafe, restoreMember] at hrest
      obtain ⟨items', hitems', rfl⟩ := Except.map_eq_ok hrest
      rw [PyVal.fits, Bool.and_eq_true]
      exact ⟨h.1, fitsAll_of_restored ih h.2 hitems' heq⟩
    · rw [toJsonSafe, restoreMember] at hrest
      obtain ⟨items', hitems', rfl⟩ := Except.map_eq_ok hrest
      exact fitsAll_of_restored ih h hitems' heq
  | dict items ih =>
    intro ann v' h hrest heq
    cases ann <;> simp only [PyVal.fits, Bool.false_eq_true, Bool.and_eq_true,
      decide_eq_true_eq] at h
    rename_i key value
    obtain ⟨⟨hdistinct, hkeys⟩, h⟩ := h
    rw [PyVal.fitsItems_iff] at h
    rw [toJsonSafe, restoreMember] at hrest
    obtain ⟨restored, hrestored, rfl⟩ := Except.map_eq_ok hrest
    rw [PyVal.pyEq, Bool.and_eq_true, beq_iff_eq] at heq
    obtain ⟨hlen, heq⟩ := heq
    obtain ⟨htexts, hkept⟩ := lossless_of_length hrestored hlen
    rw [htexts] at hrestored
    rw [hkept] at heq
    have hdistinct' : Dict.Distinct restored := hkept ▸ Dict.distinct_ofItems
    have hall := restoreDict_ok hrestored
    have hkeys := restoresKey_of_restored hdistinct hdistinct' hkeys
      (hall.imp fun _ _ hr => hr.1) heq
    rw [PyVal.fits, Bool.and_eq_true, Bool.and_eq_true, decide_eq_true_eq, PyVal.fitsItems_iff]
    refine ⟨⟨hdistinct, List.all_eq_true.mpr fun k hk => ?_⟩, fun item hitem => ?_⟩
    · obtain ⟨item, hitem, rfl⟩ := List.mem_map.mp hk
      exact hkeys item hitem
    · -- the keys are the old ones, so each value is found by its key
      obtain ⟨item', hitem', hkey, hrest⟩ := restored_of_mem hall hitem
      obtain ⟨b, hb, hbkey, hbeq⟩ := PyVal.pyEqItems_mem heq hitem'
      rw [restoreDictKey_text (hkeys item hitem)] at hkey
      rw [← Except.ok.inj hkey, ← PyKey.pyEq_plain, PyKey.plain_plain, PyKey.pyEq_plain] at hbkey
      obtain rfl := hdistinct.eq_of_key PyKey.pyEq_comm hb hitem hbkey
      rw [restoreAlong_of_fits (h b hb)] at hrest
      exact ih b hb _ _ (h b hb) hrest hbeq
  | dataclass cls fields ih =>
    intro ann v' h hrest heq
    cases ann <;> simp only [PyVal.fits, Bool.false_eq_true, Bool.and_eq_true, beq_iff_eq] at h
    obtain ⟨⟨-, hnames⟩, h⟩ := h
    rename_i cls'
    rw [PyVal.fitsFields_iff] at h
    rw [toJsonSafe, restoreMember] at hrest
    obtain ⟨restored, hrestored, hv'⟩ := Except.bind_eq_ok hrest
    obtain ⟨fields', hinit, rfl⟩ := Except.map_eq_ok hv'
    rw [PyVal.pyEq, hclasses.eq] at heq
    have hsame : (cls' == cls && PyVal.pyEqFields classes fields' fields) = true := heq
    clear heq
    rw [Bool.and_eq_true, beq_iff_eq] at hsame
    obtain ⟨rfl, heq⟩ := hsame
    have hall := restoreFields_ok hrestored
    obtain rfl := hclasses.init ((map_fst_eq (hall.imp fun _ _ hr => hr.1)).trans hnames) hinit
    rw [PyVal.fits, Bool.and_eq_true, Bool.and_eq_true, beq_iff_eq, beq_iff_eq]
    exact ⟨⟨rfl, hnames⟩, PyVal.fitsFields_iff.mpr (fitsFields_of_restored ih h hall heq)⟩
  | model cls dump =>
    intro ann _ h
    cases ann <;> cases h

/-- the condition for a value to come back equal -/
structure PyVal.Restorable (classes : Classes) (numerals : Numerals) (v : PyVal) (ann : Ann) :
    Prop where
  fits : v.fits classes (· == ·) (Ann.restoresKeys numerals) ann = true
  rebuilds : v.Rebuilds classes

/-- **What a replay restores is what the first run returned**, for every annotation and every value
of it, when each key of each dictionary is restored by its key type, each dataclass instance is of
the class the annotation names, and making the instances anew gives an equal value.  And only then,
unless a class changes its fields or has its own `__eq__`, or a key has the text of another key. -/
theorem replayed_results {v : PyVal} {ann : Ann}
    (h : v.fits classes classes.isSubclass Ann.admitsKeys ann = true) :
    (v.Restorable classes numerals ann →
      ∃ v', fromJsonSafe classes numerals (toJsonSafe numerals v) ann = .ok v'
        ∧ v'.pyEq classes v = true)
    ∧ (v.fits classes (· == ·) (Ann.restoresKeys numerals) ann = true
        ∨ classes.Ordinary ∧ v.fits classes classes.isSubclass (Ann.tellsApart numerals) ann = true →
      (∃ v', fromJsonSafe classes numerals (toJsonSafe numerals v) ann = .ok v'
        ∧ v'.pyEq classes v = true) →
      v.Restorable classes numerals ann) := by
  have hrebuilds (hfits : v.fits classes (· == ·) (Ann.restoresKeys numerals) ann = true) :
      (∃ v', fromJsonSafe classes numerals (toJsonSafe numerals v) ann = .ok v'
        ∧ v'.pyEq classes v = true) ↔ v.Rebuilds classes := by
    rw [fromJsonSafe_toJsonSafe hfits, PyVal.Rebuilds]
  refine ⟨fun hv => (hrebuilds hv.fits).mpr hv.rebuilds, fun hside hback => ?_⟩
  have hfits : v.fits classes (· == ·) (Ann.restoresKeys numerals) ann = true := by
    rcases hside with hfits | ⟨hclasses, hapart⟩
    · exact hfits
    · obtain ⟨v', hrest, heq⟩ := hback
      rw [fromJsonSafe, restoreAlong_of_fits h] at hrest
      exact fits_of_restored hclasses v ann v' hapart hrest heq
  exact ⟨hfits, (hrebuilds hfits).mp hback⟩

end

/-! ## generated constructors -/

section
variable {classes : Classes}

theorem find?_of_nodup {kwargs : List (String × PyVal)} (h : (kwargs.map (·.1)).Nodup)
    {arg : String × PyVal} (harg : arg ∈ kwargs) :
    kwargs.find? (fun a => a.1 == arg.1) = some arg := by
  induction kwargs with
  | nil => cases harg
  | cons a kwargs ih =>
    obtain ⟨hne, hnodup⟩ := List.nodup_cons.mp h
    rcases List.mem_cons.mp harg with rfl | harg
    · exact List.find?_cons_of_pos (by simp)
    · rw [List.find?_cons_of_neg]
      · exact ih hnodup harg
      · intro heq
        exact hne (List.mem_map.mpr ⟨arg, harg, (beq_iff_eq.mp heq).symm⟩)

theorem generatedInit_of_names {fields : List Field}
    {postInit : List (String × PyVal) → Except PyExc (List (String × PyVal))}
    {kwargs : List (String × PyVal)} (hnodup : (fields.map Field.name).Nodup)
    (h : kwargs.map (·.1) = fields.map Field.name) :
    generatedInit fields postInit kwargs = postInit kwargs := by
  rw [← h] at hnodup
  have hknown : (kwargs.any fun arg => fields.all fun f => f.name != arg.1)
      = false := by
    refine List.any_eq_false.mpr fun arg harg hall => ?_
    have hmem := List.mem_map_of_mem (f := (·.1)) harg
    rw [h] at hmem
    obtain ⟨f, hf, heq⟩ := List.mem_map.mp hmem
    have := List.all_eq_true.mp hall f hf
    rw [heq, bne_self_eq_false] at this
    cases this
  have hargs : ∀ (fs : List Field) (args : List (String × PyVal)),
      args.map (·.1) = fs.map Field.name → (∀ arg ∈ args, arg ∈ kwargs) →
      fs.mapM (fun f => (f.argument kwargs).map fun v => (f.name, v)) = some args := by
    intro fs
    induction fs with
    | nil =>
      intro args heq _
      rw [List.map_eq_nil_iff.mp heq]
      rfl
    | cons f fs ih =>
      intro args heq hsub
      cases args with
      | nil => cases heq
      | cons arg args =>
        obtain ⟨hname, heq⟩ := List.cons.inj heq
        rw [List.mapM_cons, ih args heq fun a ha => hsub a (List.mem_cons_of_mem _ ha), ← hname,
          Field.argument, ← hname, find?_of_nodup hnodup (hsub arg List.mem_cons_self)]
        rfl
  rw [generatedInit, hknown, hargs fields kwargs h fun _ h => h]
  rfl

theorem PyVal.rebuiltAll_of_rebuilds {items : List PyVal} (h : ∀ x ∈ items, x.Rebuilds classes) :
    ∃ items', rebuiltAll classes items = .ok items' ∧ pyEqAll classes items' items = true := by
  induction items with
  | nil => exact ⟨[], rfl, rfl⟩
  | cons x xs ih =>
    obtain ⟨y, hy, heq⟩ := h x List.mem_cons_self
    obtain ⟨ys, hys, heqs⟩ := ih fun z hz => h z (List.mem_cons_of_mem _ hz)
    refine ⟨y :: ys, ?_, ?_⟩
    · rw [rebuiltAll, hy, hys]
      rfl
    · rw [pyEqAll, heq, heqs]
      rfl

theorem PyVal.rebuiltItems_of_rebuilds {items : List (PyKey × PyVal)}
    (h : ∀ x ∈ items, x.2.Rebuilds classes) :
    ∃ items', rebuiltItems classes items = .ok items' ∧ items'.length = items.length
      ∧ ∀ all, (∀ x ∈ items, x ∈ all) → pyEqItems classes items' all = true := by
  induction items with
  | nil => exact ⟨[], rfl, rfl, fun _ _ => rfl⟩
  | cons x xs ih =>
    obtain ⟨k, x⟩ := x
    obtain ⟨y, hy, heq⟩ := h (k, x) List.mem_cons_self
    obtain ⟨ys, hys, hlen, heqs⟩ := ih fun z hz => h z (List.mem_cons_of_mem _ hz)
    refine ⟨(k.plain, y) :: ys, ?_, congrArg (· + 1) hlen, fun all hall => ?_⟩
    · rw [rebuiltItems, hy, hys]
      rfl
    · rw [pyEqItems, heqs all fun z hz => hall z (List.mem_cons_of_mem _ hz), Bool.and_true,
        List.any_eq_true]
      refine ⟨(k, x), hall (k, x) List.mem_cons_self, ?_⟩
      have hkey : (k == k.plain) = true := by
        rw [← PyKey.pyEq_plain, PyKey.plain_plain, PyKey.pyEq_refl]
      rw [hkey, heq]
      rfl

theorem PyVal.rebuiltFields_of_rebuilds {fields : List (String × PyVal)}
    (h : ∀ x ∈ fields, x.2.Rebuilds classes) :
    ∃ fields', rebuiltFields classes fields = .ok fields'
      ∧ fields'.map (·.1) = fields.map (·.1) ∧ pyEqFields classes fields' fields = true := by
  induction fields with
  | nil => exact ⟨[], rfl, rfl, rfl⟩
  | cons x xs ih =>
    obtain ⟨n, x⟩ := x
    obtain ⟨y, hy, heq⟩ := h (n, x) List.mem_cons_self
    obtain ⟨ys, hys, hnames, heqs⟩ := ih fun z hz => h z (List.mem_cons_of_mem _ hz)
    refine ⟨(n, y) :: ys, ?_, ?_, ?_⟩
    · rw [rebuiltFields, hy, hys]
      rfl
    · rw [List.map_cons, List.map_cons, hnames]
    · rw [pyEqFields, heq, heqs, beq_self_eq_true]
      rfl

/-- **Where each class has the generated constructor and `==` and no `__post_init__`, a rebuilt
value is equal**, so that the condition is about keys and classes only. -/
theorem PyVal.rebuilds_of_generated {classOk : String → String → Bool}
    {keysOk : Ann → List PyKey → Bool} (hinit : ∀ cls, classes.init cls
      = generatedInit (classes.fields cls) .ok) (heq : ∀ cls cls', classes.eq cls cls' = Option.none)
    (v : PyVal) : ∀ ann, v.fits classes classOk keysOk ann = true → v.Rebuilds classes := by
  induction v using PyVal.induct with
  | none => exact fun _ _ => ⟨.none, rfl, rfl⟩
  | bool b => exact fun _ _ => ⟨.bool b, rfl, by simp [pyEq, number?]⟩
  | int n => exact fun _ _ => ⟨.int n, rfl, by simp [pyEq, number?]⟩
  | float x => exact fun _ _ => ⟨.float x, rfl, by simp [pyEq, number?]⟩
  | str s => exact fun _ _ => ⟨.str s, rfl, by simp [pyEq]⟩
  | list items ih =>
    intro ann h
    cases ann <;> simp only [fits, Bool.false_eq_true] at h
    obtain ⟨items', hitems', heqs⟩ := rebuiltAll_of_rebuilds fun x hx => by
      obtain ⟨ann, hfits⟩ := fitsAll_mem h hx
      exact ih x hx ann hfits
    exact ⟨.list items', by rw [rebuilt, hitems']; rfl, heqs⟩
  | tuple items ih =>
    intro ann h
    have hall : ∃ anns, fitsAll classes classOk keysOk items anns = true := by
      cases ann <;> simp only [fits, Bool.false_eq_true, Bool.and_eq_true] at h
      · exact ⟨_, h.2⟩
      · exact ⟨_, h⟩
    obtain ⟨anns, h⟩ := hall
    obtain ⟨items', hitems', heqs⟩ := rebuiltAll_of_rebuilds fun x hx => by
      obtain ⟨ann, hfits⟩ := fitsAll_mem h hx
      exact ih x hx ann hfits
    exact ⟨.tuple items', by rw [rebuilt, hitems']; rfl, heqs⟩
  | dict items ih =>
    intro ann h
    cases ann <;> simp only [fits, Bool.false_eq_true, Bool.and_eq_true] at h
    obtain ⟨items', hitems', hlen, heqs⟩ := rebuiltItems_of_rebuilds fun x hx =>
      ih x hx _ (fitsItems_iff.mp h.2 x hx)
    refine ⟨.dict items', by rw [rebuilt, hitems']; rfl, ?_⟩
    rw [pyEq, hlen, beq_self_eq_true, heqs items fun _ h => h]
    rfl
  | dataclass cls fields ih =>
    intro ann h
    cases ann <;> simp only [fits, Bool.false_eq_true, Bool.and_eq_true, beq_iff_eq] at h
    obtain ⟨⟨-, hnames⟩, h⟩ := h
    obtain ⟨fields', hfields', hnames', heqs⟩ := rebuiltFields_of_rebuilds fun x hx =>
      ih x hx _ (fitsFields_iff.mp h x hx)
    refine ⟨.dataclass cls fields', ?_, ?_⟩
    · rw [rebuilt, hfields']
      show classes.construct cls fields' = _
      rw [Classes.construct, hinit,
        generatedInit_of_names (classes.fields_nodup cls) (hnames'.trans hnames)]
      rfl
    · rw [pyEq, heq]
      show (cls == cls && pyEqFields classes fields' fields) = true
      rw [beq_self_eq_true, heqs]
      rfl
  | model cls dump =>
    intro ann h
    cases ann <;> cases h

end

/-! ## an instance -/

/-- integers as Python has them; a float by its number in an enumeration -/
def Numerals.plain : Numerals where
  floatText x := toString (Encodable.encode x)
  parseInt text := text.toInt?.elim (.error (.other "ValueError" "invalid literal for int()")) .ok
  parseFloat text := (text.toNat?.bind Encodable.decode).elim
    (.error (.other "ValueError" "could not convert string to float")) .ok
  parseInt_text n := by simp
  parseInt_bool b n := by
    suffices (if b then "True" else "False").toInt? = none by simp [this]
    rw [Option.eq_none_iff_forall_ne_some]
    intro n h
    rcases String.toInt?_eq_some_iff.mp h with ⟨m, h, -⟩ | ⟨t, h, -⟩
    · have := String.isNat_of_toNat?_eq_some h
      rw [String.isNat_iff] at this
      cases b <;> simp at this
    · have := congrArg String.toList h
      cases b <;> simp at this
  parseFloat_text x := by simp

def orderFields (cls : String) : List Field :=
  if cls = "Order" then [⟨"address", .tuple [.str, .int], none⟩, ⟨"prices", .dict .str .float, none⟩]
  else []

/-- one dataclass, `Order`, with an address and a dictionary of prices -/
def Classes.orders : Classes where
  isSubclass cls cls' := cls == cls'
  isSubclass_refl := eq_isSubclass_refl
  fields := orderFields
  fields_nodup cls := by
    unfold orderFields
    split <;> decide
  init cls := generatedInit (orderFields cls) .ok
  eq _ _ := none
  validate _ dump := .ok (.ofJson dump)

/-- the key `milk` is a member of a `StrEnum` -/
def anOrder : PyVal := .dataclass "Order"
  [("address", .tuple [.str "Elm Street", .int 7]),
    ("prices", .dict [(.str "tea", .float (5 / 2)), (.strOf "milk" "milk", .float 1)])]

theorem restorable_anOrder : anOrder.Restorable Classes.orders Numerals.plain (.dataclass "Order") :=
  ⟨by decide +kernel, PyVal.rebuilds_of_generated (fun _ => rfl) (fun _ _ => rfl) anOrder
    (.dataclass "Order") (show anOrder.fits Classes.orders (· == ·) Ann.admitsKeys _ = true by
      decide +kernel)⟩

/-- `replayed_results` for `anOrder`, and the other way round for `{False: 1}` -/
theorem replayed_results_once :
    (∃ v', fromJsonSafe Classes.orders Numerals.plain (toJsonSafe Numerals.plain anOrder)
        (.dataclass "Order") = .ok v' ∧ v'.pyEq Classes.orders anOrder = true)
      ∧ ¬∃ v', fromJsonSafe Classes.orders Numerals.plain
        (toJsonSafe Numerals.plain (.dict [(.bool false, .int 1)])) (.dict .bool .int) = .ok v'
          ∧ v'.pyEq Classes.orders (.dict [(.bool false, .int 1)]) = true := by
  refine ⟨(replayed_results (by decide +kernel)).1 restorable_anOrder, fun hback => ?_⟩
  have hordinary : Classes.orders.Ordinary :=
    ⟨fun _ _ => rfl, fun {cls _ _} hnames hinit => (Except.ok.inj ((generatedInit_of_names
      (Classes.orders.fields_nodup cls) hnames).symm.trans hinit)).symm⟩
  have hrestorable := (replayed_results (by decide +kernel)).2
    (.inr ⟨hordinary, by decide +kernel⟩) hback
  exact absurd hrestorable.fits (by decide +kernel)

/-- `{False: 1}` comes back as `{True: 1}` -/
theorem false_key_changed :
    (PyVal.dict [(.bool false, .int 1)]).fits Classes.orders Classes.orders.isSubclass
        Ann.admitsKeys (.dict .bool .int) = true
      ∧ fromJsonSafe Classes.orders Numerals.plain
        (toJsonSafe Numerals.plain (.dict [(.bool false, .int 1)])) (.dict .bool .int)
          = .ok (.dict [(.bool true, .int 1)])
      ∧ (PyVal.dict [(.bool true, .int 1)]).pyEq Classes.orders (.dict [(.bool false, .int 1)])
          = false :=
  ⟨by decide +kernel, rfl, by decide +kernel⟩

end TemporalLight
