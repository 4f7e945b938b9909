import TemporalLight.Models
import TemporalLight.Library.Dict

/-!
# Conversion of Python values to JSON and back (serialization.py)

The Python values the engine stores: atoms, lists, tuples, dictionaries, dataclass instances, and
pydantic models by what `model_dump` makes of them.  A value of a subclass of `str`, `int`, `float`,
`list`, `tuple` or `dict` is the value of that type it equals; only a key has a text of its own.  An
`Ann` is a type annotation after `get_type_hints`, `get_origin` and `get_args`; dataclasses refer to
each other by name, so they may be recursive.  An `Ann.union` has two members at least, none of them
a union or `Any`.

The constructor of a dataclass is a parameter, and so is an `__eq__` that is not the generated one:
classes may have a `__post_init__` that checks or changes fields, and `eq=False`.  What pydantic
does, and how a float is written and read, are parameters too.
-/

namespace TemporalLight

/-! ## values -/

/-- a key of a dictionary; `intOf`, `floatOf` and `strOf` are instances of proper subclasses, which
compare as their base and have a `str` of their own; `other` is any other hashable object, by its
`str` -/
inductive PyKey where
  | none
  | bool (b : Bool)
  | int (n : Int)
  | float (x : ℚ)
  | str (s : String)
  | intOf (base : Int) (text : String)
  | floatOf (base : ℚ) (text : String)
  | strOf (base text : String)
  | other (text : String)

def PyKey.number? : PyKey → Option ℚ
  | .bool b => some (if b then 1 else 0)
  | .int n => some n
  | .float x => some x
  | .intOf base _ => some base
  | .floatOf base _ => some base
  | _ => Option.none

def PyKey.string? : PyKey → Option String
  | .str s => some s
  | .strOf base _ => some base
  | _ => Option.none

/-- `==` of keys; `True == 1 == 1.0` -/
def PyKey.pyEq : PyKey → PyKey → Bool
  | .none, .none => true
  | .other s, .other t => s == t
  | x, y => match x.string?, y.string?, x.number?, y.number? with
    | some s, some t, _, _ => s == t
    | _, _, some p, some q => p == q
    | _, _, _, _ => false

instance : BEq PyKey := ⟨PyKey.pyEq⟩

inductive PyVal where
  | none
  | bool (b : Bool)
  | int (n : Int)
  | float (x : ℚ)
  | str (s : String)
  | list (items : List PyVal)
  | tuple (items : List PyVal)
  | dict (items : List (PyKey × PyVal))
  | dataclass (cls : String) (fields : List (String × PyVal))
  /-- an instance of a `BaseModel`, by `model_dump(mode='json')` -/
  | model (cls : String) (dump : Json)

namespace PyVal

def number? : PyVal → Option ℚ
  | .bool b => some (if b then 1 else 0)
  | .int n => some n
  | .float x => some x
  | _ => Option.none

mutual
/-- a decoded JSON value -/
def ofJson : Json → PyVal
  | .null => .none
  | .bool b => .bool b
  | .int n => .int n
  | .float x => .float x
  | .str s => .str s
  | .arr items => .list (ofJsonAll items)
  | .obj fields => .dict (ofJsonFields fields)

def ofJsonAll : List Json → List PyVal
  | [] => []
  | x :: xs => ofJson x :: ofJsonAll xs

def ofJsonFields : List (String × Json) → List (PyKey × PyVal)
  | [] => []
  | (k, x) :: xs => (.str k, ofJson x) :: ofJsonFields xs
end

end PyVal

/-! ## annotations and classes -/

inductive Ann where
  /-- `Any`, or no annotation -/
  | any
  | none
  | bool
  | int
  | float
  | str
  | list (item : Ann)
  | tuple (items : List Ann)
  /-- `tuple[item, ...]` -/
  | tupleOf (item : Ann)
  | dict (key value : Ann)
  | dataclass (cls : String)
  | model (cls : String)
  | union (members : List Ann)

/-- a field of a dataclass -/
structure Field where
  name : String
  ann : Ann
  default : Option PyVal

/-- the classes that annotations name -/
structure Classes where
  /-- `issubclass` -/
  isSubclass : String → String → Bool
  isSubclass_refl : ∀ cls, isSubclass cls cls = true
  /-- `dataclasses.fields` -/
  fields : String → List Field
  fields_nodup : ∀ cls, ((fields cls).map Field.name).Nodup
  /-- `cls(**kwargs)`: the fields of the new instance -/
  init : String → List (String × PyVal) → Except PyExc (List (String × PyVal))
  /-- `==` of instances of the two classes; `none` where both have the generated one -/
  eq : String → String → Option (List (String × PyVal) → List (String × PyVal) → Bool)
  /-- `model_validate` -/
  validate : String → Json → Except PyExc PyVal

theorem eq_isSubclass_refl (cls : String) : (cls == cls) = true := beq_self_eq_true cls

/-- how Python writes and reads numbers -/
structure Numerals where
  floatText : ℚ → String
  parseInt : String → Except PyExc Int
  parseFloat : String → Except PyExc ℚ
  parseInt_text : ∀ n : Int, parseInt (toString n) = .ok n
  parseInt_bool : ∀ (b : Bool) n, parseInt (if b then "True" else "False") ≠ .ok n
  parseFloat_text : ∀ x, parseFloat (floatText x) = .ok x

/-- `str(key)` -/
def PyKey.text (numerals : Numerals) : PyKey → String
  | .none => "None"
  | .bool b => if b then "True" else "False"
  | .int n => toString n
  | .float x => numerals.floatText x
  | .str s => s
  | .intOf _ text => text
  | .floatOf _ text => text
  | .strOf _ text => text
  | .other text => text

def typeError (message : String) : PyExc := .other "TypeError" message

def Classes.annOf (classes : Classes) (cls name : String) : Ann :=
  (((classes.fields cls).find? fun f => f.name == name).map Field.ann).getD .any

def Classes.construct (classes : Classes) (cls : String) (kwargs : List (String × PyVal)) :
    Except PyExc PyVal :=
  (classes.init cls kwargs).map (.dataclass cls)

/-- what a generated constructor makes of a field -/
def Field.argument (kwargs : List (String × PyVal)) (f : Field) : Option PyVal :=
  ((kwargs.find? fun arg => arg.1 == f.name).map (·.2)).or f.default

/-- the constructor that `dataclass` generates for these fields; it calls `__post_init__` last -/
def generatedInit (fields : List Field)
    (postInit : List (String × PyVal) → Except PyExc (List (String × PyVal)))
    (kwargs : List (String × PyVal)) : Except PyExc (List (String × PyVal)) :=
  if kwargs.any fun arg => fields.all fun f => f.name != arg.1 then
    .error (typeError "got an unexpected keyword argument")
  else match fields.mapM fun f => (f.argument kwargs).map fun v => (f.name, v) with
    | some assigned => postInit assigned
    | none => .error (typeError "missing required arguments")

/-! ## equality -/

section
variable (classes : Classes)

namespace PyVal

mutual
/-- Python's `==` -/
def pyEq : PyVal → PyVal → Bool
  | .none, .none => true
  | .str s, .str t => s == t
  | .list xs, .list ys => pyEqAll xs ys
  | .tuple xs, .tuple ys => pyEqAll xs ys
  | .dict xs, .dict ys => xs.length == ys.length && pyEqItems xs ys
  | .dataclass c xs, .dataclass c' ys => match classes.eq c c' with
    | some eq => eq xs ys
    | Option.none => c == c' && pyEqFields xs ys
  | .model c x, .model c' y => c == c' && x.pyEq y
  | x, y => match x.number?, y.number? with
    | some p, some q => p == q
    | _, _ => false
termination_by structural x => x

def pyEqAll : List PyVal → List PyVal → Bool
  | [], [] => true
  | x :: xs, y :: ys => pyEq x y && pyEqAll xs ys
  | _, _ => false
termination_by structural x => x

def pyEqItems : List (PyKey × PyVal) → List (PyKey × PyVal) → Bool
  | [], _ => true
  | (k, x) :: xs, ys => ys.any (fun item => item.1 == k && pyEq x item.2) && pyEqItems xs ys
termination_by structural x => x

def pyEqFields : List (String × PyVal) → List (String × PyVal) → Bool
  | [], [] => true
  | (n, x) :: xs, (m, y) :: ys => n == m && pyEq x y && pyEqFields xs ys
  | _, _ => false
termination_by structural x => x
end

end PyVal

end

/-! ## to_json_safe -/

mutual
def toJsonSafe (numerals : Numerals) : PyVal → Json
  | .model _ dump => dump
  | .dataclass _ fields => .obj (toJsonSafeFields numerals fields)
  | .list items => .arr (toJsonSafeAll numerals items)
  | .tuple items => .arr (toJsonSafeAll numerals items)
  | .dict items => .obj (Dict.ofItems (toJsonSafeItems numerals items))
  | .none => .null
  | .bool b => .bool b
  | .int n => .int n
  | .float x => .float x
  | .str s => .str s

def toJsonSafeAll (numerals : Numerals) : List PyVal → List Json
  | [] => []
  | x :: xs => toJsonSafe numerals x :: toJsonSafeAll numerals xs

def toJsonSafeFields (numerals : Numerals) : List (String × PyVal) → List (String × Json)
  | [] => []
  | (n, x) :: xs => (n, toJsonSafe numerals x) :: toJsonSafeFields numerals xs

def toJsonSafeItems (numerals : Numerals) : List (PyKey × PyVal) → List (String × Json)
  | [] => []
  | (k, x) :: xs => (k.text numerals, toJsonSafe numerals x) :: toJsonSafeItems numerals xs
end

/-! ## from_json_safe -/

/-- `_value_matches_annotation` -/
def valueMatchesAnn (classes : Classes) : PyVal → Ann → Bool
  | .list _, .list _ => true
  | _, .list _ => false
  | .dict _, .dict _ _ => true
  | _, .dict _ _ => false
  | .tuple _, .tuple _ => true
  | _, .tuple _ => false
  | .tuple _, .tupleOf _ => true
  | _, .tupleOf _ => false
  | .model cls _, .model cls' => classes.isSubclass cls cls'
  | _, .model _ => false
  | .dataclass cls _, .dataclass cls' => classes.isSubclass cls cls'
  | _, .dataclass _ => false
  | .none, .none => true
  | _, .none => false
  | .bool _, .bool => true
  | _, .bool => false
  -- `bool` is a subclass of `int`
  | .bool _, .int => true
  | .int _, .int => true
  | _, .int => false
  | .float _, .float => true
  | _, .float => false
  | .str _, .str => true
  | _, .str => false
  | _, .any => true
  | _, .union _ => true

/-- the loop of `_restore_union`; `restore` is `from_json_safe(value, ·)` -/
def restoreMembers (classes : Classes) (value : Json) (restore : Ann → Except PyExc PyVal)
    (lastError : Option PyExc) : List Ann → Except PyExc PyVal
  | [] => match lastError with
    | some error => .error error
    | none => .ok (.ofJson value)
  | .none :: members => restoreMembers classes value restore lastError members
  | member :: members => match restore member with
    | .error error =>
      if error.isException then restoreMembers classes value restore (some error) members
      else .error error
    | .ok restored =>
      if valueMatchesAnn classes restored member then .ok restored
      else restoreMembers classes value restore lastError members

def Ann.isNone : Ann → Bool
  | .none => true
  | _ => false

/-- `_restore_union` -/
def restoreUnion (classes : Classes) (value : Json) (restore : Ann → Except PyExc PyVal)
    (members : List Ann) : Except PyExc PyVal :=
  match value, members.any Ann.isNone with
  | .null, true => .ok .none
  | _, _ => restoreMembers classes value restore none members

/-- `_restore_dict_key`; `bool(text)` is false for the empty text only -/
def restoreDictKey (numerals : Numerals) (key : String) : Ann → Except PyExc PyKey
  | .int => (numerals.parseInt key).map .int
  | .float => (numerals.parseFloat key).map .float
  | .bool => .ok (.bool (key != ""))
  | _ => .ok (.str key)

/-- the annotation of an item of a fixed tuple -/
def tupleItemAnn (items : List Ann) (index : Nat) : Ann :=
  items.getD index .any

/-- `from_json_safe(value, annotation)`, when `restore` does the work for any annotation that is
no union -/
def restoreAlong (classes : Classes) (value : Json) (restore : Ann → Except PyExc PyVal) :
    Ann → Except PyExc PyVal
  | .union members => restoreUnion classes value restore members
  | ann => restore ann

section
variable (classes : Classes) (numerals : Numerals)

mutual
def restoreMember : Json → Ann → Except PyExc PyVal
  | .arr items, .list item => (restoreItems items fun _ => item).map .list
  | .arr items, .tuple anns =>
    (restoreItems items (tupleItemAnn anns)).map .tuple
  | .arr items, .tupleOf item => (restoreItems items fun _ => item).map .tuple
  | .obj fields, .dict key value =>
    (restoreDict fields key value).map fun items => .dict (Dict.ofItems items)
  | .obj fields, .dataclass cls => do
    let restoredFields ← restoreFields fields cls
    classes.construct cls restoredFields
  | .obj fields, .model cls => classes.validate cls (.obj fields)
  | value, _ => .ok (.ofJson value)
termination_by structural x => x

def restoreItems : List Json → (Nat → Ann) → Except PyExc (List PyVal)
  | [], _ => .ok []
  | x :: xs, anns => do
    let restored ← restoreAlong classes x (restoreMember x) (anns 0)
    let rest ← restoreItems xs fun i => anns (i + 1)
    return restored :: rest
termination_by structural x => x

def restoreDict : List (String × Json) → Ann → Ann →
    Except PyExc (List (PyKey × PyVal))
  | [], _, _ => .ok []
  | (k, x) :: xs, keyAnn, valueAnn => do
    let key ← restoreDictKey numerals k keyAnn
    let restored ← restoreAlong classes x (restoreMember x) valueAnn
    let rest ← restoreDict xs keyAnn valueAnn
    return (key, restored) :: rest
termination_by structural x => x

def restoreFields : List (String × Json) → String → Except PyExc (List (String × PyVal))
  | [], _ => .ok []
  | (k, x) :: xs, cls => do
    let restored ← restoreAlong classes x (restoreMember x) (classes.annOf cls k)
    let rest ← restoreFields xs cls
    return (k, restored) :: rest
termination_by structural x => x
end

/-- `from_json_safe` -/
def fromJsonSafe (value : Json) (ann : Ann) : Except PyExc PyVal :=
  restoreAlong classes value (restoreMember classes numerals value) ann

end

end TemporalLight
