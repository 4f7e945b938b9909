import TemporalLight.RoundTrip

/-!
# Unions of dataclasses

`_restore_union` tries the members in the order of the annotation.  A dataclass accepts the fields
of a value when its constructor, called with them, raises nothing, whatever class they were written
from.  A generated constructor raises nothing when each name is a field, no field without default is
missing, and `__post_init__` lets the fields pass.  Only an `Exception` of a constructor leads to the
next member.

* `restoreMembers_eq`   the loop ends at the first member that raises no `Exception`
* `generated_endsLoop`  when a generated constructor does
* `union_restored`      a value comes back if and only if the first such member is its class, and
                        the instance it makes is equal
-/

set_option linter.unusedSectionVars false

namespace TemporalLight

section
variable {classes : Classes} {numerals : Numerals} {cls : String}

def Ann.isScalar : Ann → Bool
  | .none => true
  | .bool => true
  | .int => true
  | .str => true
  | _ => false

/-- a member of the unions below: `None`, or a dataclass with scalar fields -/
def Ann.isFlat (classes : Classes) : Ann → Bool
  | .none => true
  | .dataclass cls => (classes.fields cls).all fun f => f.ann.isScalar
  | _ => false

/-- the constructor, called with the fields, raises no `Exception`: it returns, or what it raises
ends the loop -/
def Ann.endsLoop (classes : Classes) (fields : List (String × PyVal)) : Ann → Bool
  | .dataclass cls => match classes.construct cls fields with
    | .ok _ => true
    | .error error => !error.isException
  | _ => false

/-- a generated constructor takes the names of the fields -/
def Ann.takesNames (classes : Classes) (cls : String) (names : List String) : Bool :=
  names.all (fun name => (classes.fields cls).any fun f => f.name == name)
    && (classes.fields cls).all fun f => f.default.isSome || names.contains f.name

def PyVal.cls? : PyVal → Option String
  | .dataclass cls _ => some cls
  | .model cls _ => some cls
  | _ => Option.none

def PyVal.fields : PyVal → List (String × PyVal)
  | .dataclass _ fields => fields
  | _ => []

/-! ## one member -/

theorem Ann.isScalar_annOf (h : (Ann.dataclass cls).isFlat classes = true) (name : String) :
    (classes.annOf cls name).isScalar = true ∨ classes.annOf cls name = .any := by
  rw [Classes.annOf]
  cases hf : (classes.fields cls).find? fun f => f.name == name with
  | none => exact .inr rfl
  | some f => exact .inl (List.all_eq_true.mp h f (List.mem_of_find?_eq_some hf))

theorem Ann.isScalar_annOf_of_mem (h : (Ann.dataclass cls).isFlat classes = true) {name : String}
    (hname : name ∈ (classes.fields cls).map Field.name) :
    (classes.annOf cls name).isScalar = true := by
  rw [Classes.annOf]
  cases hf : (classes.fields cls).find? fun f => f.name == name with
  | none =>
    obtain ⟨f, hmem, heq⟩ := List.mem_map.mp hname
    exact absurd (beq_iff_eq.mpr heq) (List.find?_eq_none.mp hf f hmem)
  | some f => exact List.all_eq_true.mp h f (List.mem_of_find?_eq_some hf)

theorem restoreAlong_scalar {x : PyVal} {ann ann' : Ann}
    (hx : x.fits classes classes.isSubclass Ann.admitsKeys ann = true) (hann : ann.isScalar = true)
    (hann' : ann'.isScalar = true ∨ ann' = .any) :
    restoreAlong classes (toJsonSafe numerals x)
      (restoreMember classes numerals (toJsonSafe numerals x)) ann' = .ok x := by
  cases ann <;> simp only [Ann.isScalar, Bool.false_eq_true] at hann <;>
    cases x <;> simp only [PyVal.fits, Bool.false_eq_true] at hx <;>
    cases ann' <;> first | rfl | simp [Ann.isScalar] at hann'

theorem restoreFields_scalar {fields : List (String × PyVal)} {cls' : String}
    (hfields : PyVal.fitsFields classes classes.isSubclass Ann.admitsKeys fields cls' = true)
    (hcls' : ∀ f ∈ fields, (classes.annOf cls' f.1).isScalar = true)
    (hcls : (Ann.dataclass cls).isFlat classes = true) :
    restoreFields classes numerals (toJsonSafeFields numerals fields) cls = .ok fields := by
  rw [PyVal.fitsFields_iff] at hfields
  induction fields with
  | nil => rfl
  | cons f fields ih =>
    rw [toJsonSafeFields, restoreFields, restoreAlong_scalar (hfields f List.mem_cons_self)
      (hcls' f List.mem_cons_self) (Ann.isScalar_annOf hcls f.1),
      ih (fun a ha => hfields a (List.mem_cons_of_mem _ ha))
        (fun a ha => hcls' a (List.mem_cons_of_mem _ ha))]
    rfl

theorem mapM_isSome {α β : Type} {f : α → Option β} {xs : List α} :
    (xs.mapM f).isSome = xs.all fun x => (f x).isSome := by
  induction xs with
  | nil => rfl
  | cons x xs ih =>
    rw [List.mapM_cons, List.all_cons, ← ih]
    cases f x with
    | none => rfl
    | some y => cases xs.mapM f <;> rfl

theorem Field.argument_isSome {kwargs : List (String × PyVal)} {f : Field} :
    (f.argument kwargs).isSome = (f.default.isSome || (kwargs.map (·.1)).contains f.name) := by
  have hfind : (kwargs.find? fun arg => arg.1 == f.name).isSome
      = (kwargs.map (·.1)).contains f.name := by
    rw [Bool.eq_iff_iff, List.find?_isSome, List.contains_iff_mem, List.mem_map]
    simp only [beq_iff_eq]
  rw [Field.argument, Option.isSome_or, Option.isSome_map, Bool.or_comm, hfind]

/-- **A generated constructor ends the loop** if it takes the names of the fields, and
`__post_init__`, run on what it has assigned, raises no `Exception`. -/
theorem generated_endsLoop {kwargs : List (String × PyVal)}
    {postInit : List (String × PyVal) → Except PyExc (List (String × PyVal))}
    (hinit : classes.init cls = generatedInit (classes.fields cls) postInit) :
    (Ann.dataclass cls).endsLoop classes kwargs = true
      ↔ Ann.takesNames classes cls (kwargs.map (·.1)) = true
        ∧ ∃ assigned, (classes.fields cls).mapM (fun f =>
            (f.argument kwargs).map fun v => (f.name, v)) = some assigned
          ∧ ∀ error, postInit assigned = .error error → error.isException = false := by
  have hknown : (kwargs.any fun arg => (classes.fields cls).all fun f => f.name != arg.1)
      = !((kwargs.map (·.1)).all fun name => (classes.fields cls).any fun f => f.name == name) := by
    rw [List.all_map, List.not_all_eq_any_not]
    simp only [Function.comp_apply, List.not_any_eq_all_not, bne]
  have hargs : ((classes.fields cls).mapM fun f : Field =>
        (f.argument kwargs).map fun v => (f.name, v)).isSome
      = (classes.fields cls).all fun f => f.default.isSome
        || (kwargs.map (·.1)).contains f.name := by
    rw [mapM_isSome]
    simp only [Option.isSome_map, Field.argument_isSome]
  rw [Ann.endsLoop, Classes.construct, hinit, generatedInit, Ann.takesNames, ← hargs, hknown]
  cases (kwargs.map (·.1)).all fun name => (classes.fields cls).any fun f => f.name == name with
  | false => exact iff_of_false Bool.false_ne_true fun h => absurd h.1 Bool.false_ne_true
  | true =>
    rw [Bool.not_true, if_neg Bool.false_ne_true, Bool.true_and]
    cases (classes.fields cls).mapM fun f : Field =>
        (f.argument kwargs).map fun v => (f.name, v) with
    | none => exact iff_of_false Bool.false_ne_true fun h => absurd h.1 Bool.false_ne_true
    | some assigned =>
      dsimp only
      cases hpost : postInit assigned with
      | error e =>
        show (!e.isException) = true ↔ _
        rw [Bool.not_eq_true']
        constructor
        · intro hexception
          refine ⟨rfl, assigned, rfl, fun error herror => ?_⟩
          rw [← Except.error.inj (hpost.symm.trans herror), hexception]
        · rintro ⟨-, _, hassigned, h⟩
          exact h e ((Option.some.inj hassigned) ▸ hpost)
      | ok made =>
        refine iff_of_true rfl ⟨rfl, assigned, rfl, fun error herror => ?_⟩
        rw [hpost] at herror
        cases herror

/-! ## all members -/

variable {fields : List (String × PyVal)}

/-- the loop of `_restore_union` ends at the first member that raises no `Exception` -/
theorem restoreMembers_eq {members : List Ann} {value : Json} {restore : Ann → Except PyExc PyVal}
    (hrestore : ∀ cls, .dataclass cls ∈ members →
      restore (.dataclass cls) = classes.construct cls fields)
    (hmembers : ∀ m ∈ members, m.isFlat classes = true) {member : Ann}
    (hfind : members.find? (Ann.endsLoop classes fields) = some member) (last : Option PyExc) :
    restoreMembers classes value restore last members = restore member := by
  induction members generalizing last with
  | nil => cases hfind
  | cons m members ih =>
    have hrestore' : ∀ cls, .dataclass cls ∈ members →
        restore (.dataclass cls) = classes.construct cls fields :=
      fun cls h => hrestore cls (List.mem_cons_of_mem _ h)
    have hmembers' : ∀ m ∈ members, m.isFlat classes = true :=
      fun m h => hmembers m (List.mem_cons_of_mem _ h)
    cases m with
    | none => exact ih hrestore' hmembers' hfind last
    | dataclass cls =>
      have hcls := hrestore cls List.mem_cons_self
      cases hconstruct : classes.construct cls fields with
      | ok v =>
        have hends : (Ann.dataclass cls).endsLoop classes fields = true := by
          rw [Ann.endsLoop, hconstruct]
        rw [List.find?_cons_of_pos hends] at hfind
        obtain rfl := Option.some.inj hfind
        obtain ⟨fields', -, rfl⟩ := Except.map_eq_ok hconstruct
        rw [restoreMembers, hcls, hconstruct]
        · exact if_pos (classes.isSubclass_refl cls)
        · exact fun h => by cases h
      | error e =>
        have hends : (Ann.dataclass cls).endsLoop classes fields = !e.isException := by
          rw [Ann.endsLoop, hconstruct]
        cases hexception : e.isException with
        | true =>
          rw [hexception] at hends
          rw [List.find?_cons_of_neg (by rw [hends]; exact Bool.false_ne_true)] at hfind
          rw [restoreMembers, hcls, hconstruct]
          · exact (if_pos hexception).trans (ih hrestore' hmembers' hfind _)
          · exact fun h => by cases h
        | false =>
          rw [hexception] at hends
          rw [List.find?_cons_of_pos hends] at hfind
          obtain rfl := Option.some.inj hfind
          rw [restoreMembers, hcls, hconstruct]
          · exact if_neg (by rw [hexception]; exact Bool.false_ne_true)
          · exact fun h => by cases h
    | _ => cases hmembers _ List.mem_cons_self

/-- only an instance of a member is made -/
theorem cls_of_restoreMembers {members : List Ann} {fields : List (String × Json)}
    {restore : Ann → Except PyExc PyVal}
    (hrestore : ∀ cls v, restore (.dataclass cls) = .ok v → v.cls? = some cls)
    (hmembers : ∀ m ∈ members, m.isFlat classes = true) {last : Option PyExc} {v : PyVal}
    (h : restoreMembers classes (.obj fields) restore last members = .ok v) :
    ∀ cls, v.cls? = some cls → .dataclass cls ∈ members ∧ restore (.dataclass cls) = .ok v := by
  induction members generalizing last with
  | nil =>
    cases last with
    | some e => cases h
    | none =>
      obtain rfl := Except.ok.inj h
      exact fun cls hcls => by cases hcls
  | cons m members ih =>
    have ih := @ih fun m h => hmembers m (List.mem_cons_of_mem _ h)
    cases m with
    | none => exact fun cls hcls => (ih h cls hcls).imp_left (List.mem_cons_of_mem _)
    | dataclass cls' =>
      intro cls hcls
      rw [restoreMembers] at h
      · split at h
        · split at h
          · exact (ih h cls hcls).imp_left (List.mem_cons_of_mem _)
          · cases h
        · rename_i v' hv'
          split at h
          · obtain rfl := Except.ok.inj h
            obtain rfl := Option.some.inj ((hrestore cls' v' hv').symm.trans hcls)
            exact ⟨List.mem_cons_self, hv'⟩
          · exact (ih h cls hcls).imp_left (List.mem_cons_of_mem _)
      · exact fun h => by cases h
    | _ => cases hmembers _ List.mem_cons_self

/-- **A value comes back from a union if and only if its class is the first member whose constructor
raises no `Exception` on its fields, and the instance that its class makes of them equals it.** -/
theorem union_restored {members : List Ann} {v : PyVal}
    (hmembers : ∀ m ∈ members, m.isFlat classes = true)
    (hv : ∃ m ∈ members, v.fits classes classes.isSubclass Ann.admitsKeys m = true) :
    (∃ v', fromJsonSafe classes numerals (toJsonSafe numerals v) (.union members) = .ok v'
      ∧ v'.pyEq classes v = true ∧ v'.cls? = v.cls?)
    ↔ ∀ cls, v.cls? = some cls →
      members.find? (Ann.endsLoop classes v.fields) = some (.dataclass cls)
      ∧ ∃ v', classes.construct cls v.fields = .ok v' ∧ v'.pyEq classes v = true := by
  obtain ⟨m, hm, hfits⟩ := hv
  have hflat := hmembers m hm
  cases v with
  | none =>
    have hnone : members.any Ann.isNone = true := by
      cases m <;> first | exact List.any_eq_true.mpr ⟨_, hm, rfl⟩ | cases hfits
    have hrest : fromJsonSafe classes numerals (toJsonSafe numerals .none) (.union members)
        = .ok .none := by
      rw [fromJsonSafe, restoreAlong, toJsonSafe, restoreUnion]
      exact hnone
    refine iff_of_true ⟨.none, hrest, rfl, rfl⟩ fun cls hcls => ?_
    cases hcls
  | dataclass cls fields =>
    cases m with
    | dataclass cls₀ =>
      simp only [PyVal.fits, Bool.and_eq_true, beq_iff_eq] at hfits
      obtain ⟨⟨-, hnames⟩, hfields⟩ := hfits
      have hrestore : .dataclass cls ∈ members → ∀ cls', .dataclass cls' ∈ members →
          restoreMember classes numerals (toJsonSafe numerals (.dataclass cls fields))
            (.dataclass cls') = classes.construct cls' fields := by
        intro hcls cls' hcls'
        have hscalar : ∀ f ∈ fields, (classes.annOf cls f.1).isScalar = true := fun f hf =>
          Ann.isScalar_annOf_of_mem (hmembers _ hcls) (hnames ▸ List.mem_map_of_mem hf)
        rw [toJsonSafe, restoreMember, restoreFields_scalar hfields hscalar (hmembers _ hcls')]
        rfl
      have hloop : fromJsonSafe classes numerals (toJsonSafe numerals (.dataclass cls fields))
            (.union members)
          = restoreMembers classes (toJsonSafe numerals (.dataclass cls fields))
            (restoreMember classes numerals (toJsonSafe numerals (.dataclass cls fields)))
            none members := rfl
      rw [hloop]
      constructor
      · rintro ⟨v', hrest, heq, hv'⟩ cls' hcls'
        obtain rfl : cls = cls' := Option.some.inj hcls'
        obtain ⟨hcls, hmade⟩ := cls_of_restoreMembers (fun cls v hok => by
          obtain ⟨restored, -, hok⟩ := Except.bind_eq_ok hok
          obtain ⟨fields', -, rfl⟩ := Except.map_eq_ok hok
          rfl) hmembers hrest cls hv'
        rw [hrestore hcls cls hcls] at hmade
        have hends : (Ann.dataclass cls).endsLoop classes fields = true := by
          rw [Ann.endsLoop, hmade]
        refine ⟨?_, v', hmade, heq⟩
        show members.find? (Ann.endsLoop classes fields) = _
        cases hfind : members.find? (Ann.endsLoop classes fields) with
        | none => exact absurd hends (List.find?_eq_none.mp hfind _ hcls)
        | some member =>
          rw [restoreMembers_eq (hrestore hcls) hmembers hfind] at hrest
          have hmem := List.mem_of_find?_eq_some hfind
          have hmember := List.find?_some hfind
          cases member with
          | dataclass cls' =>
            rw [hrestore hcls cls' hmem] at hrest
            obtain ⟨fields', -, rfl⟩ := Except.map_eq_ok hrest
            obtain rfl : cls' = cls := Option.some.inj hv'
            rfl
          | _ => cases hmember
      · intro hfind
        obtain ⟨hfind, v', hconstruct, heq⟩ := hfind cls rfl
        have hcls := List.mem_of_find?_eq_some hfind
        obtain ⟨fields', -, rfl⟩ := Except.map_eq_ok hconstruct
        refine ⟨.dataclass cls fields', ?_, heq, rfl⟩
        rw [restoreMembers_eq (hrestore hcls) hmembers hfind, hrestore hcls cls hcls]
        exact hconstruct
    | _ => cases hfits
  | _ => cases m <;> first | exact absurd hflat Bool.false_ne_true | cases hfits

end

/-! ## an instance -/

/-- `Refund(amount, reason='')` and `Payment(amount)`; a payment is not negative -/
def paymentFields (cls : String) : List Field :=
  if cls = "Refund" then [⟨"amount", .int, none⟩, ⟨"reason", .str, some (.str "")⟩]
  else if cls = "Payment" then [⟨"amount", .int, none⟩] else []

def checkAmount (cls : String) (fields : List (String × PyVal)) :
    Except PyExc (List (String × PyVal)) :=
  match cls, fields with
  | "Payment", [(_, .int (.negSucc _))] => .error (.other "ValueError" "negative amount")
  | _, _ => .ok fields

def Classes.payments : Classes where
  isSubclass cls cls' := cls == cls'
  isSubclass_refl := eq_isSubclass_refl
  fields := paymentFields
  fields_nodup cls := by
    unfold paymentFields
    split
    · decide
    · split <;> decide
  init cls := generatedInit (paymentFields cls) (checkAmount cls)
  eq _ _ := none
  validate _ dump := .ok (.ofJson dump)

def aPayment : PyVal := .dataclass "Payment" [("amount", .int 3)]

def aRefund : PyVal := .dataclass "Refund" [("amount", .int (-3)), ("reason", .str "late")]

theorem union_restored_once :
    (∃ v', fromJsonSafe Classes.payments Numerals.plain (toJsonSafe Numerals.plain aPayment)
        (.union [.none, .dataclass "Payment", .dataclass "Refund"]) = .ok v'
      ∧ v'.pyEq Classes.payments aPayment = true ∧ v'.cls? = aPayment.cls?)
    ∧ ∃ v', fromJsonSafe Classes.payments Numerals.plain (toJsonSafe Numerals.plain aRefund)
        (.union [.none, .dataclass "Payment", .dataclass "Refund"]) = .ok v'
      ∧ v'.pyEq Classes.payments aRefund = true ∧ v'.cls? = aRefund.cls? := by
  refine ⟨(union_restored (by decide) ⟨.dataclass "Payment",
    List.mem_cons_of_mem _ List.mem_cons_self, by decide⟩).mpr fun cls hcls => ?_,
    (union_restored (by decide) ⟨.dataclass "Refund",
      List.mem_cons_of_mem _ (List.mem_cons_of_mem _ List.mem_cons_self), by decide⟩).mpr
      fun cls hcls => ?_⟩
  · obtain rfl : "Payment" = cls := Option.some.inj hcls
    exact ⟨rfl, aPayment, rfl, by decide⟩
  · obtain rfl : "Refund" = cls := Option.some.inj hcls
    exact ⟨rfl, aRefund, rfl, by decide⟩

/-- with `Refund` listed first, a payment comes back as a refund -/
theorem payment_restored_as_refund :
    (∀ m ∈ [Ann.dataclass "Refund", .dataclass "Payment"], m.isFlat Classes.payments = true)
      ∧ (∃ name, name ∈ (Classes.payments.fields "Refund").map Field.name
        ∧ name ∉ (Classes.payments.fields "Payment").map Field.name)
      ∧ aPayment.fits Classes.payments Classes.payments.isSubclass Ann.admitsKeys
        (.dataclass "Payment") = true
      ∧ ∃ v', fromJsonSafe Classes.payments Numerals.plain (toJsonSafe Numerals.plain aPayment)
          (.union [.dataclass "Refund", .dataclass "Payment"]) = .ok v'
        ∧ v'.pyEq Classes.payments aPayment = false ∧ v'.cls? = some "Refund" :=
  ⟨by decide, ⟨"reason", by decide, by decide⟩, by decide, _, rfl, by decide, rfl⟩

end TemporalLight
