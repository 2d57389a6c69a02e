/-
GottaGo.Firestore.Document — the data model of Cloud Firestore: dynamic
values, documents and field writes.

A document is a finite map from field names to values; nothing forces a
field to be there or to have a given type, and the readers of this
development have to say what they do when it is not. A field write is a
plain value, or one of the two array transforms:

* `arrayUnion` appends the elements the array does not hold yet, in
  order, and starts from the empty array when the field holds none;
* `arrayRemove` removes every occurrence of its elements, and leaves the
  empty array when the field holds none.

`elems` reads a field as the array it holds (the empty one if it holds
none), which is what both transforms work on.
-/
import Mathlib.Data.Finmap

namespace GottaGo.Firestore

/-- A stored value. A double is its IEEE-754 bit pattern. -/
inductive Value where
  | null
  | bool (b : Bool)
  | int (i : Int)
  | double (bits : UInt64)
  | str (s : String)
  | arr (vs : List Value)
  | map (fs : List (String × Value))
  deriving Repr

mutual

/-- Equality of values is decided by structure. -/
def Value.decEq : (a b : Value) → Decidable (a = b)
  | .null, .null => isTrue rfl
  | .bool a, .bool b => decidable_of_iff (a = b) (by simp)
  | .int a, .int b => decidable_of_iff (a = b) (by simp)
  | .double a, .double b => decidable_of_iff (a = b) (by simp)
  | .str a, .str b => decidable_of_iff (a = b) (by simp)
  | .arr a, .arr b =>
    have := Value.decEqList a b
    decidable_of_iff (a = b) (by simp)
  | .map a, .map b =>
    have := Value.decEqFields a b
    decidable_of_iff (a = b) (by simp)
  | .null, .bool _ | .null, .int _ | .null, .double _ | .null, .str _
  | .null, .arr _ | .null, .map _ => isFalse (by simp)
  | .bool _, .null | .bool _, .int _ | .bool _, .double _ | .bool _, .str _
  | .bool _, .arr _ | .bool _, .map _ => isFalse (by simp)
  | .int _, .null | .int _, .bool _ | .int _, .double _ | .int _, .str _
  | .int _, .arr _ | .int _, .map _ => isFalse (by simp)
  | .double _, .null | .double _, .bool _ | .double _, .int _
  | .double _, .str _ | .double _, .arr _ | .double _, .map _ =>
    isFalse (by simp)
  | .str _, .null | .str _, .bool _ | .str _, .int _ | .str _, .double _
  | .str _, .arr _ | .str _, .map _ => isFalse (by simp)
  | .arr _, .null | .arr _, .bool _ | .arr _, .int _ | .arr _, .double _
  | .arr _, .str _ | .arr _, .map _ => isFalse (by simp)
  | .map _, .null | .map _, .bool _ | .map _, .int _ | .map _, .double _
  | .map _, .str _ | .map _, .arr _ => isFalse (by simp)

def Value.decEqList : (as bs : List Value) → Decidable (as = bs)
  | [], [] => isTrue rfl
  | [], _ :: _ => isFalse (by simp)
  | _ :: _, [] => isFalse (by simp)
  | a :: as, b :: bs =>
    have := Value.decEq a b
    have := Value.decEqList as bs
    decidable_of_iff (a = b ∧ as = bs) (by simp)

def Value.decEqFields : (as bs : List (String × Value)) → Decidable (as = bs)
  | [], [] => isTrue rfl
  | [], _ :: _ => isFalse (by simp)
  | _ :: _, [] => isFalse (by simp)
  | (f, a) :: as, (g, b) :: bs =>
    have := Value.decEq a b
    have := Value.decEqFields as bs
    decidable_of_iff ((f = g ∧ a = b) ∧ as = bs) (by simp)

end

instance : DecidableEq Value := Value.decEq

/-- A string or null. -/
def Value.ofString? : Option String → Value
  | some s => .str s
  | none => .null

/-- A double or null. -/
def Value.ofDouble? : Option UInt64 → Value
  | some x => .double x
  | none => .null

/-- An array or null. -/
def Value.ofList? : Option (List Value) → Value
  | some vs => .arr vs
  | none => .null

/-- An array of strings. -/
def Value.strs (ss : List String) : Value := .arr (ss.map .str)

/-- An array of strings or null. -/
def Value.ofStrings? : Option (List String) → Value
  | some ss => .strs ss
  | none => .null

/-- The array a field holds, empty if it holds none. -/
def elems : Option Value → List Value
  | some (.arr vs) => vs
  | _ => []

@[simp] theorem elems_arr (vs : List Value) : elems (some (.arr vs)) = vs := rfl

@[simp] theorem elems_none : elems none = [] := rfl

/-! ## Field writes -/

/-- What `update` may put in a field. -/
inductive FieldWrite where
  | put (v : Value)
  | arrayUnion (vs : List Value)
  | arrayRemove (vs : List Value)
  deriving Repr, DecidableEq

/-- `vs` appended to `xs`, without what is already there. -/
def unionTo (xs vs : List Value) : List Value :=
  vs.foldl (fun acc v => if v ∈ acc then acc else acc ++ [v]) xs

/-- `xs` without the elements of `vs`. -/
def removeFrom (xs vs : List Value) : List Value :=
  xs.filter fun v => v ∉ vs

/-- The value a field has after a write, from the one it had before. -/
def FieldWrite.apply : FieldWrite → Option Value → Value
  | .put v, _ => v
  | .arrayUnion vs, old => .arr (unionTo (elems old) vs)
  | .arrayRemove vs, old => .arr (removeFrom (elems old) vs)

theorem mem_unionTo {xs vs : List Value} {x : Value} :
    x ∈ unionTo xs vs ↔ x ∈ xs ∨ x ∈ vs := by
  induction vs generalizing xs with
  | nil => simp [unionTo]
  | cons v vs ih =>
    simp only [unionTo, List.foldl_cons, List.mem_cons] at ih ⊢
    rw [ih]
    by_cases hv : v ∈ xs
    · simp only [hv, if_true]
      constructor
      · rintro (h | h)
        · exact .inl h
        · exact .inr (.inr h)
      · rintro (h | rfl | h)
        · exact .inl h
        · exact .inl hv
        · exact .inr h
    · simp [hv, or_assoc]

@[simp] theorem mem_removeFrom {xs vs : List Value} {x : Value} :
    x ∈ removeFrom xs vs ↔ x ∈ xs ∧ x ∉ vs := by
  simp [removeFrom]

/-! ## Documents -/

/-- A document: field names and their values. -/
abbrev Doc := Finmap fun _ : String => Value

namespace Doc

/-- `d[f]`. -/
def get? (d : Doc) (f : String) : Option Value := d.lookup f

/-- `d` with field `f` set to `v`. -/
def put (d : Doc) (f : String) (v : Value) : Doc := d.insert f v

/-- The document of a map literal. -/
def ofList (fs : List (String × Value)) : Doc :=
  fs.foldr (fun f d => put d f.1 f.2) ∅

/-- `update(fs)` on a document that exists. -/
def update (d : Doc) (fs : List (String × FieldWrite)) : Doc :=
  fs.foldl (fun d f => put d f.1 (f.2.apply (get? d f.1))) d

@[simp] theorem get?_put_self (d : Doc) (f : String) (v : Value) :
    (d.put f v).get? f = some v := Finmap.lookup_insert d

theorem get?_put_of_ne (d : Doc) {f g : String} (v : Value) (h : g ≠ f) :
    (d.put f v).get? g = d.get? g := Finmap.lookup_insert_of_ne d h

theorem get?_put (d : Doc) (f g : String) (v : Value) :
    (d.put f v).get? g = if g = f then some v else d.get? g := by
  split
  · next h => subst h; exact d.get?_put_self g v
  · next h => exact d.get?_put_of_ne v h

@[simp] theorem get?_ofList (fs : List (String × Value)) (f : String) :
    (ofList fs).get? f = fs.lookup f := by
  induction fs with
  | nil => exact Finmap.lookup_empty f
  | cons p fs ih =>
    have hcons : ofList (p :: fs) = (ofList fs).put p.1 p.2 := rfl
    rw [hcons, get?_put, ih, List.lookup_cons]
    by_cases h : f = p.1
    · simp [h]
    · have hb : (f == p.1) = false := by simpa using h
      simp [h, hb]

@[simp] theorem update_nil (d : Doc) : d.update [] = d := rfl

theorem update_cons (d : Doc) (f : String) (w : FieldWrite)
    (fs : List (String × FieldWrite)) :
    d.update ((f, w) :: fs) = (d.put f (w.apply (d.get? f))).update fs := rfl

/-- `update` leaves the fields it does not name. -/
theorem get?_update_of_notMem (d : Doc) {fs : List (String × FieldWrite)}
    {g : String} (h : g ∉ fs.map Prod.fst) : (d.update fs).get? g = d.get? g := by
  induction fs generalizing d with
  | nil => rfl
  | cons p fs ih =>
    obtain ⟨f, w⟩ := p
    simp only [List.map_cons, List.mem_cons, not_or] at h
    rw [update_cons, ih _ h.2, get?_put_of_ne _ _ h.1]

/-- `update` applies the write of each field it names once. -/
theorem get?_update_of_mem (d : Doc) {fs : List (String × FieldWrite)}
    {g : String} {w : FieldWrite} (hnd : (fs.map Prod.fst).Nodup)
    (h : (g, w) ∈ fs) : (d.update fs).get? g = some (w.apply (d.get? g)) := by
  induction fs generalizing d with
  | nil => cases h
  | cons p fs ih =>
    obtain ⟨f, v⟩ := p
    simp only [List.map_cons, List.nodup_cons] at hnd
    rw [update_cons]
    rcases List.mem_cons.mp h with heq | hmem
    · cases heq
      rw [get?_update_of_notMem _ hnd.1, get?_put_self]
    · have hne : g ≠ f := fun e =>
        hnd.1 (e ▸ List.mem_map.mpr ⟨(g, w), hmem, rfl⟩)
      rw [ih _ hnd.2 hmem, get?_put_of_ne _ _ hne]

/-- Writing values changes nothing just when they are there. -/
theorem update_put_eq_self_iff (d : Doc) {fs : List (String × Value)}
    (hnd : (fs.map Prod.fst).Nodup) :
    d.update (fs.map fun f => (f.1, .put f.2)) = d ↔ ∀ f ∈ fs, d.get? f.1 = some f.2 := by
  have hnames : (fs.map fun f => (f.1, FieldWrite.put f.2)).map Prod.fst = fs.map Prod.fst := by
    simp
  have hnamed : ∀ f ∈ fs,
      (d.update (fs.map fun f => (f.1, .put f.2))).get? f.1 = some f.2 := by
    intro f hf
    exact get?_update_of_mem d (w := .put f.2) (hnames ▸ hnd) (List.mem_map.mpr ⟨f, hf, rfl⟩)
  constructor
  · intro h f hf
    rw [← hnamed f hf, h]
  · intro h
    refine Finmap.ext_lookup fun g => ?_
    by_cases hg : g ∈ fs.map Prod.fst
    · obtain ⟨f, hf, rfl⟩ := List.mem_map.mp hg
      exact (hnamed f hf).trans (h f hf).symm
    · exact get?_update_of_notMem d (hnames ▸ hg)

theorem get?_update_single (d : Doc) (f g : String) (w : FieldWrite) :
    (d.update [(f, w)]).get? g =
      if g = f then some (w.apply (d.get? f)) else d.get? g := by
  rw [update_cons, update_nil, get?_put]

end Doc

/-! ## Reading a snapshot

Reading `snap['f']` throws `StateError` when the document or the field is
missing; assigning the dynamic value to a typed variable throws
`TypeError` when it has another type. -/

/-- The exceptions of this development: `FirebaseException`, a bare
`Exception()`, `StateError` and `TypeError` (a failed cast or null
check). -/
inductive Err where
  | firebase
  | exception
  | stateError
  | typeError
  deriving DecidableEq, Repr

/-- `snap[f]`. -/
def fieldOf (snap : Option Doc) (f : String) : Except Err Value :=
  match snap with
  | none => .error .stateError
  | some d =>
    match d.get? f with
    | none => .error .stateError
    | some v => .ok v

def asString : Value → Except Err String
  | .str s => .ok s
  | _ => .error .typeError

def asString? : Value → Except Err (Option String)
  | .str s => .ok (some s)
  | .null => .ok none
  | _ => .error .typeError

def asInt : Value → Except Err Int
  | .int i => .ok i
  | _ => .error .typeError

def asDouble? : Value → Except Err (Option UInt64)
  | .double x => .ok (some x)
  | .null => .ok none
  | _ => .error .typeError

def asMap : Value → Except Err (List (String × Value))
  | .map fs => .ok fs
  | _ => .error .typeError

def asList? : Value → Except Err (Option (List Value))
  | .arr vs => .ok (some vs)
  | .null => .ok none
  | _ => .error .typeError

/-- `List<String>.from(v)`. -/
def stringsFrom : Value → Except Err (List String)
  | .arr vs => vs.mapM asString
  | _ => .error .typeError

/-- `data.containsKey(f) ? snap[f] : null`. -/
def optionalFieldOf (d : Doc) (f : String) : Value := (d.get? f).getD .null

/-- What a chain of reads returns is what each of them returns. -/
theorem bind_eq_ok {ε α β : Type} {x : Except ε α} {f : α → Except ε β} {b : β} :
    x >>= f = .ok b ↔ ∃ a, x = .ok a ∧ f a = .ok b := by
  cases x with
  | error e =>
    constructor
    · intro h; cases h
    · rintro ⟨_, h, -⟩; cases h
  | ok a =>
    constructor
    · intro h; exact ⟨a, rfl, h⟩
    · rintro ⟨_, h, hb⟩; cases h; exact hb

theorem fieldOf_eq_ok {snap : Option Doc} {f : String} {v : Value} :
    fieldOf snap f = .ok v ↔ ∃ d, snap = some d ∧ d.get? f = some v := by
  cases snap with
  | none => simp [fieldOf]
  | some d => cases hd : d.get? f <;> simp [fieldOf, hd]

@[simp] theorem asString_eq_ok {v : Value} {s : String} :
    asString v = .ok s ↔ v = .str s := by
  cases v <;> simp [asString]

@[simp] theorem asString?_eq_ok {v : Value} {s : Option String} :
    asString? v = .ok s ↔ v = Value.ofString? s := by
  cases v <;> cases s <;> simp [asString?, Value.ofString?, eq_comm]

theorem asList?_eq_ok {v : Value} {vs : Option (List Value)} :
    asList? v = .ok vs ↔ v = Value.ofList? vs := by
  cases v <;> cases vs <;> simp [asList?, Value.ofList?, eq_comm]

theorem asDouble?_eq_ok {v : Value} {x : Option UInt64} :
    asDouble? v = .ok x ↔ v = Value.ofDouble? x := by
  cases x with
  | none =>
    cases v with
    | null => exact iff_of_true rfl rfl
    | _ => exact ⟨nofun, nofun⟩
  | some x =>
    cases v with
    | double y => exact ⟨fun h => by cases h; rfl, fun h => by cases h; rfl⟩
    | _ => exact ⟨nofun, nofun⟩

theorem mapM_asString_eq_ok {vs : List Value} {ss : List String} :
    vs.mapM asString = .ok ss ↔ vs = ss.map .str := by
  induction vs generalizing ss with
  | nil => cases ss <;> simp [pure, Except.pure]
  | cons v vs ih =>
    rw [List.mapM_cons]
    simp only [bind_eq_ok, asString_eq_ok, ih]
    constructor
    · intro hx
      obtain ⟨s, rfl, ss', rfl, hss⟩ := hx
      cases hss
      rfl
    · intro h
      cases ss with
      | nil => cases h
      | cons s ss =>
        cases h
        exact ⟨s, rfl, ss, rfl, rfl⟩

/-- `List<String>.from` accepts the arrays of strings and no others. -/
@[simp] theorem stringsFrom_eq_ok {v : Value} {ss : List String} :
    stringsFrom v = .ok ss ↔ v = .strs ss := by
  cases v <;> simp [stringsFrom, Value.strs, mapM_asString_eq_ok]

end GottaGo.Firestore
