import TemporalLight.Queries

/-!
# Workflow code and its surroundings

The engine runs user code it knows nothing about.  A workflow function is deterministic Python
between its awaits, so it is a function from what its awaits have delivered so far (a value, or an
exception raised at the await) to what it does next: the next await, the value it returns, or the
exception it raises.  Handlers, loops and `finally` blocks are all of this form.

`Val` is the type of Python values the code works with.  `Runtime` collects what the engine uses
of Python and Postgres but does not define: the conversions between values and JSON, the text of a
datetime, `repr`, the text `jsonb ->>` gives to a value that is no string, and which JSON values
the `jsonb` type refuses.
-/

namespace TemporalLight

/-- a function decorated with `@activity`; `fromJsonSafe` restores a recorded result along its
return annotation -/
structure ActivityFunction (Val : Type) where
  qualname : String
  maxRetries : Int
  backoffSeconds : ℚ
  fromJsonSafe : Json → Except PyExc Val

/-- what `to_json_safe` has made of a value: what `json.dumps` takes (an instance of a subclass of
`str`, `int` or `float` counts as its base), or what it refuses, with the `!=` and the `repr` of it -/
inductive JsonSafe where
  | json (value : Json)
  | refused (error : PyExc) (differs : Json → Except PyExc Bool) (repr : Except PyExc String)

namespace JsonSafe

def dumps : JsonSafe → Except PyExc Json
  | .json value => .ok value
  | .refused error _ _ => .error error

/-- `recorded != value` -/
def differs (recorded : Json) : JsonSafe → Except PyExc Bool
  | .json value => .ok !recorded.pyEq value
  | .refused _ differs _ => differs recorded

/-- `repr(value)`; `text` is the `repr` of a JSON value -/
def repr (text : Json → String) : JsonSafe → Except PyExc String
  | .json value => .ok (text value)
  | .refused _ _ repr => repr

end JsonSafe

/-- the next thing a workflow function does; the arguments of an activity are what `to_json_safe`
returns or raises, those of a child and the result what `json.dumps` makes of it -/
inductive Action (Val : Type) where
  | activity (function : ActivityFunction Val) (arguments : Except PyExc JsonSafe)
  | sleep (seconds minutes hours days : ℚ)
  | spawnChild (workflowName : String) (kwargs : Except PyExc Json)
  | waitForChild (childId : String)
  | waitForSignal (signalType : String)
  | ret (result : Except PyExc Json)
  | raise (error : PyExc)

/-- what an await delivers -/
abbrev Outcome (Val : Type) := Except PyExc Val

abbrev Program (Val : Type) := List (Outcome Val) → Action Val

def Action.wait? {Val : Type} : Action Val → Option Wait
  | .waitForChild childId => some (.child childId)
  | .waitForSignal signalType => some (.signal signalType)
  | _ => none

def Action.isEnd {Val : Type} : Action Val → Bool
  | .ret _ => true
  | .raise _ => true
  | _ => false

structure Runtime (Val : Type) where
  /-- a JSON value as the code sees it -/
  ofJson : Json → Val
  /-- `json.dumps` of the JSON-safe form of an activity result -/
  dumps : Val → Except PyExc Json
  isoformat : Int → String
  fromisoformat : String → Int
  fromisoformat_isoformat : ∀ t, fromisoformat (isoformat t) = t
  repr : Json → String
  jsonbText : Json → String
  /-- the text of the `DataError` of an `INSERT` whose payload `jsonb` refuses -/
  jsonbRejects : Json → Option String
  lockDurationSeconds : Int

/-- the workers' code: each run may have been loaded from its own version of the registry -/
structure Deployment (Val : Type) extends Runtime Val where
  workflowRegistry : Nat → String → Option (Json → Program Val)

/-- code whose values are JSON already; times are written in unary, and no value but a string is
ever turned into a text -/
def Runtime.plain : Runtime Json where
  ofJson := id
  dumps := .ok
  isoformat t := String.ofList (List.replicate t.toNat '+' ++ List.replicate (-t).toNat '-')
  fromisoformat text := (text.toList.count '+' : Int) - text.toList.count '-'
  fromisoformat_isoformat t := by
    simp only [String.toList_ofList, List.count_append, List.count_replicate,
      beq_self_eq_true, if_true]
    rw [if_neg (by decide), if_neg (by decide)]
    omega
  repr _ := ""
  jsonbText _ := ""
  jsonbRejects _ := none
  lockDurationSeconds := 30

/-- all workers run these workflows -/
def Deployment.plain (registry : String → Option (Json → Program Json)) : Deployment Json where
  toRuntime := Runtime.plain
  workflowRegistry _ := registry

/-! ## what the engine asks of the database, the clock and the activity pool -/

inductive Call (Val : Type) where
  | loadEventHistory (workflowId : String)
  | getWorkflow (workflowId : String)
  | now
  /-- `_run_activity_body`, for the step `stepIndex` of the workflow -/
  | runActivityBody (workflowId : String) (stepIndex : Nat) (function : ActivityFunction Val)
      (arguments : JsonSafe)
  | pgNotify (workflowId : String)
  | transaction (txn : Txn)

def Call.Reply {Val : Type} : Call Val → Type
  | .loadEventHistory _ => List EventRecord
  | .getWorkflow _ => Option WorkflowRecord
  | .now => Int
  | .runActivityBody _ _ _ _ => Except PyExc Val
  | .pgNotify _ => Unit
  | .transaction _ => Except PyExc Bool

end TemporalLight
