import TemporalLight.RoundTrip
import TemporalLight.Divergence

/-!
# Serialized values are canonical

A value that goes through the log comes back as plain JSON when nothing tells its type.  Its
serialization is then the same JSON again, so the arguments of a replay compare equal with the
recorded ones although the live run has serialized richer objects.

* `canonical_toJsonSafe`     the keys of a serialized mapping are distinct strings, even if distinct
                             keys of the mapping have one text
* `toJsonSafe_ofJson`        such JSON is serialized to itself
* `serialization_canonical`  so serializing is idempotent, and replayed arguments are no divergence
-/

namespace TemporalLight

/-- JSON as a decoder returns it: no dictionary has a key twice -/
inductive Json.Canonical : Json → Prop where
  | null : Canonical .null
  | bool (b : Bool) : Canonical (.bool b)
  | int (n : Int) : Canonical (.int n)
  | float (x : ℚ) : Canonical (.float x)
  | str (s : String) : Canonical (.str s)
  | arr {items : List Json} : (∀ x ∈ items, Canonical x) → Canonical (.arr items)
  | obj {fields : List (String × Json)} : Dict.Distinct fields → (∀ f ∈ fields, Canonical f.2) →
      Canonical (.obj fields)

/-- a value of JSON atoms, lists, tuples, mappings and dataclass instances -/
inductive PyVal.Plain : PyVal → Prop where
  | none : Plain .none
  | bool (b : Bool) : Plain (.bool b)
  | int (n : Int) : Plain (.int n)
  | float (x : ℚ) : Plain (.float x)
  | str (s : String) : Plain (.str s)
  | list {items : List PyVal} : (∀ x ∈ items, Plain x) → Plain (.list items)
  | tuple {items : List PyVal} : (∀ x ∈ items, Plain x) → Plain (.tuple items)
  | dict {items : List (PyKey × PyVal)} : (∀ item ∈ items, Plain item.2) → Plain (.dict items)
  -- the names of the fields of a class are distinct
  | dataclass {cls : String} {fields : List (String × PyVal)} : Dict.Distinct fields →
      (∀ f ∈ fields, Plain f.2) → Plain (.dataclass cls fields)

section
variable {classes : Classes} {numerals : Numerals}

/-! ## the lists in values -/

theorem toJsonSafeAll_eq (items : List PyVal) :
    toJsonSafeAll numerals items = items.map (toJsonSafe numerals) := by
  induction items with
  | nil => rfl
  | cons x items ih => rw [toJsonSafeAll, ih, List.map_cons]

theorem toJsonSafeFields_eq (fields : List (String × PyVal)) : toJsonSafeFields numerals fields
    = fields.map fun f => (f.1, toJsonSafe numerals f.2) := by
  induction fields with
  | nil => rfl
  | cons f fields ih => rw [toJsonSafeFields, ih, List.map_cons]

theorem PyVal.ofJsonAll_eq (items : List Json) : ofJsonAll items = items.map ofJson := by
  induction items with
  | nil => rfl
  | cons x items ih => rw [ofJsonAll, ih, List.map_cons]

theorem PyVal.ofJsonFields_eq (fields : List (String × Json)) :
    ofJsonFields fields = fields.map fun f => (.str f.1, ofJson f.2) := by
  induction fields with
  | nil => rfl
  | cons f fields ih => rw [ofJsonFields, ih, List.map_cons]

/-! ## serializing -/

/-- what is serialized is canonical -/
theorem canonical_toJsonSafe {v : PyVal} (h : v.Plain) : (toJsonSafe numerals v).Canonical := by
  induction h with
  | none => exact .null
  | bool b => exact .bool b
  | int n => exact .int n
  | float x => exact .float x
  | str s => exact .str s
  | list _ ih =>
    rw [toJsonSafe, toJsonSafeAll_eq]
    exact .arr (List.forall_mem_map.mpr ih)
  | tuple _ ih =>
    rw [toJsonSafe, toJsonSafeAll_eq]
    exact .arr (List.forall_mem_map.mpr ih)
  | dict _ ih =>
    rw [toJsonSafe, toJsonSafeItems_eq]
    refine .obj Dict.distinct_ofItems fun f hf => ?_
    obtain ⟨a, ha, heq⟩ := Dict.value_of_mem_ofItems hf
    obtain ⟨item, hitem, rfl⟩ := List.mem_map.mp ha
    exact heq ▸ ih item hitem
  | @dataclass cls fields hdistinct _ ih =>
    rw [toJsonSafe, toJsonSafeFields_eq]
    refine .obj ?_ (List.forall_mem_map.mpr ih)
    rw [Dict.distinct_iff, List.map_map]
    exact Dict.distinct_iff.mp hdistinct

/-- **Canonical JSON is serialized to itself.** -/
theorem toJsonSafe_ofJson {j : Json} (h : j.Canonical) : toJsonSafe numerals (.ofJson j) = j := by
  induction h with
  | arr _ ih =>
    rw [PyVal.ofJson, toJsonSafe, toJsonSafeAll_eq, PyVal.ofJsonAll_eq, List.map_map]
    exact congrArg Json.arr ((List.map_congr_left ih).trans (List.map_id _))
  | @obj fields hdistinct _ ih =>
    have hitems : toJsonSafeItems numerals (PyVal.ofJsonFields fields) = fields := by
      rw [toJsonSafeItems_eq, PyVal.ofJsonFields_eq, List.map_map]
      refine (List.map_congr_left fun f hf => ?_).trans (List.map_id _)
      exact Prod.ext rfl (ih f hf)
    rw [PyVal.ofJson, toJsonSafe, hitems, Dict.ofItems_of_distinct hdistinct]
  | _ => rfl

/-! ## arguments -/

variable (numerals) in
/-- `_serialize_arguments` -/
def serializeArguments (positionalArguments : List PyVal)
    (keywordArguments : List (String × PyVal)) : Json :=
  .obj [("args", .arr (positionalArguments.map (toJsonSafe numerals))),
    ("kwargs", .obj (keywordArguments.map fun arg => (arg.1, toJsonSafe numerals arg.2)))]

variable (classes numerals) in
/-- on replay the argument `x` is `y`: the same value, or what an activity without return annotation
returns from the log when it has returned `x` -/
def Replays (x y : PyVal) : Prop :=
  y = x ∨ x.Plain ∧ fromJsonSafe classes numerals (toJsonSafe numerals x) .any = .ok y

theorem Replays.toJsonSafe_eq {x y : PyVal} (h : Replays classes numerals x y) :
    toJsonSafe numerals y = toJsonSafe numerals x := by
  rcases h with rfl | ⟨hplain, hrestored⟩
  · rfl
  · have hvalue : fromJsonSafe classes numerals (toJsonSafe numerals x) .any
        = .ok (.ofJson (toJsonSafe numerals x)) := by
      show restoreMember classes numerals (toJsonSafe numerals x) .any = _
      cases toJsonSafe numerals x <;> rfl
    rw [hvalue] at hrestored
    rw [← Except.ok.inj hrestored]
    exact toJsonSafe_ofJson (canonical_toJsonSafe hplain)

theorem serializeArguments_eq {positional positional' : List PyVal}
    {keyword keyword' : List (String × PyVal)}
    (hpositional : List.Forall₂ (Replays classes numerals) positional positional')
    (hkeyword : List.Forall₂ (fun a b => b.1 = a.1 ∧ Replays classes numerals a.2 b.2)
      keyword keyword') :
    serializeArguments numerals positional' keyword'
      = serializeArguments numerals positional keyword := by
  have hargs : positional'.map (toJsonSafe numerals) = positional.map (toJsonSafe numerals) := by
    induction hpositional with
    | nil => rfl
    | cons h _ ih => rw [List.map_cons, List.map_cons, h.toJsonSafe_eq, ih]
  have hkwargs : (keyword'.map fun arg => (arg.1, toJsonSafe numerals arg.2))
      = keyword.map fun arg => (arg.1, toJsonSafe numerals arg.2) := by
    induction hkeyword with
    | nil => rfl
    | cons h _ ih => rw [List.map_cons, List.map_cons, h.1, h.2.toJsonSafe_eq, ih]
  rw [serializeArguments, serializeArguments, hargs, hkwargs]

variable {rt : Runtime PyVal} {ctx : WorkflowContext} {function : ActivityFunction PyVal}

theorem checkScheduled_recorded {scheduled : EventRecord} {arguments : Json} (i : Nat)
    (h : scheduled.payload = .obj [("step_name", .str function.qualname), ("input", arguments)]) :
    checkScheduled rt i function (.json arguments) scheduled = .ok () := by
  have hname : scheduled.payload.get? "step_name" = some (.str function.qualname) := by
    rw [h]
    rfl
  have hinput : scheduled.payload.get? "input" = some arguments := by
    rw [h]
    rfl
  have hsame : JsonSafe.differs arguments (.json arguments) = .ok false := by
    rw [JsonSafe.differs, Json.pyEq_refl]
    rfl
  rw [checkScheduled, getItem_of_get? hname, hinput]
  dsimp only [Option.getD]
  rw [Json.pyEq_refl, hsame]
  rfl

variable (classes numerals) in
/-- **Serialization is canonical**: it returns JSON with distinct string keys, and serializing again
changes nothing.  So when results of activities without return annotations are passed on, the
arguments of the replay are the recorded ones, and no divergence. -/
theorem serialization_canonical :
    (∀ v : PyVal, v.Plain → (toJsonSafe numerals v).Canonical
      ∧ toJsonSafe numerals (.ofJson (toJsonSafe numerals v)) = toJsonSafe numerals v)
    ∧ ∀ (rt : Runtime PyVal) (ctx : WorkflowContext) (function : ActivityFunction PyVal)
      (positional positional' : List PyVal) (keyword keyword' : List (String × PyVal))
      (scheduled : EventRecord),
      List.Forall₂ (Replays classes numerals) positional positional' →
      List.Forall₂ (fun a b => b.1 = a.1 ∧ Replays classes numerals a.2 b.2) keyword keyword' →
      let recorded := serializeArguments numerals positional keyword
      let arguments := serializeArguments numerals positional' keyword'
      scheduled.payload = .obj [("step_name", .str function.qualname), ("input", recorded)] →
      arguments = recorded
      ∧ checkScheduled rt ctx.stepCounter function (.json arguments) scheduled = .ok ()
      ∧ (ctx.findCompletedEvent ctx.stepCounter = none →
        ctx.findScheduledEvent ctx.stepCounter = some scheduled →
        ¬Detected rt ctx (.activity function (.ok (.json arguments)))) := by
  refine ⟨fun v hv => ?_, fun rt ctx function positional positional' keyword keyword' scheduled
    hpositional hkeyword => ?_⟩
  · have hcanonical : (toJsonSafe numerals v).Canonical := canonical_toJsonSafe hv
    exact ⟨hcanonical, toJsonSafe_ofJson hcanonical⟩
  · intro recorded arguments hpayload
    have heq : arguments = recorded := serializeArguments_eq hpositional hkeyword
    have hcheck : checkScheduled rt ctx.stepCounter function (.json arguments) scheduled
        = .ok () := by
      rw [heq]
      exact checkScheduled_recorded ctx.stepCounter hpayload
    refine ⟨heq, hcheck, fun hcompleted hscheduled hdetected => ?_⟩
    rw [detected_iff rfl] at hdetected
    unfold WorkflowContext.Detects at hdetected
    simp only [hcompleted] at hdetected
    obtain ⟨scheduled', hscheduled', hcontradicts⟩ := hdetected
    obtain rfl := Option.some.inj (hscheduled.symm.trans hscheduled')
    obtain ⟨message, herror⟩ := (checkScheduled_error rt ctx.stepCounter).mpr hcontradicts
    rw [hcheck] at herror
    cases herror

end

/-! ## a result with two keys of one text -/

/-- `({1: 5, '1': 6},)` -/
def parcels : PyVal := .tuple [.dict [(.int 1, .int 5), (.str "1", .int 6)]]

/-- what a replay passes on in its place -/
def parcelsRestored : PyVal := .list [.dict [(.str "1", .int 6)]]

theorem plain_parcels : parcels.Plain := by
  refine .tuple (List.forall_mem_singleton.mpr (.dict ?_))
  exact List.forall_mem_cons.mpr ⟨.int 5, List.forall_mem_singleton.mpr (.int 6)⟩

def ship : ActivityFunction PyVal := ⟨"ship", 3, 1, fun value => .ok (.ofJson value)⟩

/-- `ship` is scheduled with the parcels as step 0 -/
def scheduledShip : EventRecord :=
  { scheduledCharge with
    stepName := "ship",
    payload := .obj [("step_name", .str "ship"),
      ("input", serializeArguments Numerals.plain [parcels] [])] }

/-- code whose values are serialized by `to_json_safe` -/
def Runtime.serializing : Runtime PyVal :=
  { Runtime.plain with
    ofJson := .ofJson,
    dumps := fun value => .ok (toJsonSafe Numerals.plain value) }

theorem serialization_canonical_parcels :
    serializeArguments Numerals.plain [parcelsRestored] []
        = serializeArguments Numerals.plain [parcels] []
      ∧ ¬Detected Runtime.serializing (firstStep [scheduledShip])
        (.activity ship (.ok (.json (serializeArguments Numerals.plain [parcelsRestored] [])))) := by
  have hreplays : Replays Classes.orders Numerals.plain parcels parcelsRestored :=
    .inr ⟨plain_parcels, rfl⟩
  obtain ⟨hsame, -, hdetected⟩ := (serialization_canonical Classes.orders Numerals.plain).2
    Runtime.serializing (firstStep [scheduledShip]) ship [parcels] [parcelsRestored] [] []
    scheduledShip (.cons hreplays .nil) .nil rfl
  exact ⟨hsame, hdetected rfl rfl⟩

end TemporalLight
