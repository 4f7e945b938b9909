import Mathlib.Data.Rat.Defs

/-!
# JSON values, as Python and as Postgres read them

Event payloads are decoded JSON.  The engine reads them in two ways: Python code with
`payload.get(key)` and `==`, SQL with the `jsonb` operators `->` and `->>`.  Both readings are
here, so that a predicate written in one of them can be compared with its twin in the other.

Floats are finite; they are kept by their exact value.
-/

namespace TemporalLight

inductive Json where
  | null
  | bool (b : Bool)
  | int (n : Int)
  | float (x : ℚ)
  | str (s : String)
  | arr (items : List Json)
  | obj (fields : List (String × Json))

namespace Json

/-- the numeric value of a Python number; `True` and `False` are numbers too -/
def number? : Json → Option ℚ
  | .bool b => some (if b then 1 else 0)
  | .int n => some n
  | .float x => some x
  | _ => none

mutual
/-- Python's `==`: numbers by value, dictionaries without regard to the order of their keys -/
def pyEq : Json → Json → Bool
  | .null, .null => true
  | .str s, .str t => s == t
  | .arr xs, .arr ys => pyEqItems xs ys
  | .obj xs, .obj ys => xs.length == ys.length && pyEqFields xs ys
  | x, y => match x.number?, y.number? with
    | some p, some q => p == q
    | _, _ => false

def pyEqItems : List Json → List Json → Bool
  | [], [] => true
  | x :: xs, y :: ys => pyEq x y && pyEqItems xs ys
  | _, _ => false

def pyEqFields : List (String × Json) → List (String × Json) → Bool
  | [], _ => true
  | (k, x) :: xs, ys => ys.any (fun f => f.1 == k && pyEq x f.2) && pyEqFields xs ys
end

mutual
theorem pyEq_refl : ∀ x : Json, pyEq x x = true
  | .null => rfl
  | .bool b => by simp [pyEq, number?]
  | .int n => by simp [pyEq, number?]
  | .float x => by simp [pyEq, number?]
  | .str s => by simp [pyEq]
  | .arr xs => by simp [pyEq, pyEqItems_refl xs]
  | .obj xs => by simp [pyEq, pyEqFields_of_subset xs xs fun _ h => h]

theorem pyEqItems_refl : ∀ xs : List Json, pyEqItems xs xs = true
  | [] => rfl
  | x :: xs => by simp [pyEqItems, pyEq_refl x, pyEqItems_refl xs]

theorem pyEqFields_of_subset : ∀ xs ys : List (String × Json), (∀ f ∈ xs, f ∈ ys) →
    pyEqFields xs ys = true
  | [], _, _ => rfl
  | (k, x) :: xs, ys, h => by
    have hx : (k, x) ∈ ys := h (k, x) List.mem_cons_self
    have hxs := pyEqFields_of_subset xs ys fun f hf => h f (List.mem_cons_of_mem _ hf)
    simp only [pyEqFields, Bool.and_eq_true, List.any_eq_true]
    exact ⟨⟨(k, x), hx, by simp [pyEq_refl x]⟩, hxs⟩
end

/-- `payload.get(key)`; a payload that is no dictionary has no keys -/
def get? : Json → String → Option Json
  | .obj fields, key => (fields.find? (fun f => f.1 == key)).map (·.2)
  | _, _ => none

/-- `payload.get(key) == text` for a string `text` -/
def getIs (payload : Json) (key text : String) : Bool :=
  match payload.get? key with
  | some (.str s) => s == text
  | _ => false

/-- SQL `payload -> key` -/
def arrow (payload : Option Json) (key : String) : Option Json := payload.bind (·.get? key)

/-- SQL `payload ->> key`: `NULL` for a missing key and for JSON `null`, the characters of a
string, and the text `render` of any other value -/
def arrowText (render : Json → String) (payload : Option Json) (key : String) : Option String :=
  match arrow payload key with
  | none => none
  | some .null => none
  | some (.str s) => some s
  | some j => some (render j)

@[simp] theorem get?_obj (fields : List (String × Json)) (key : String) :
    get? (.obj fields) key = (fields.find? (fun f => f.1 == key)).map (·.2) := rfl
@[simp] theorem get?_str (s key : String) : get? (.str s) key = none := rfl
@[simp] theorem get?_null (key : String) : get? .null key = none := rfl

theorem arrowText_of_getIs {render : Json → String} {payload : Json} {key text : String}
    (h : payload.getIs key text = true) : arrowText render (some payload) key = some text := by
  unfold getIs at h
  unfold arrowText arrow
  rw [Option.bind_some]
  cases hg : payload.get? key with
  | none => rw [hg] at h; simp at h
  | some j =>
    rw [hg] at h
    cases j with
    | str s => simpa using h
    | _ => simp at h

end Json

end TemporalLight
