/-
GottaGo.Firestore.Store — a database of documents, and what one write
does to it.

`P` is the type of document paths. A path names a document and nothing
below it: a subcollection document has a path of its own, so deleting a
document leaves the documents of its subcollections where they are, as
Firestore does. `set` replaces the whole document, `update` changes the
fields it names and fails when there is no document, `delete` succeeds
whether there is one or not.

`elemsAt s p f` is the array in field `f` of document `p`, the empty one
when the document, the field or the array is missing. Its lemmas say
what each kind of write does to it.
-/
import GottaGo.Firestore.Document

namespace GottaGo.Firestore

/-- The documents of a database. -/
abbrev Store (P : Type) := Finmap fun _ : P => Doc

namespace Store

variable {P : Type} [DecidableEq P]

def get (s : Store P) (p : P) : Option Doc := s.lookup p

def put (s : Store P) (p : P) (d : Doc) : Store P := s.insert p d

def del (s : Store P) (p : P) : Store P := Finmap.erase p s

/-- The database of the given documents. -/
def ofList (ds : List (P × Doc)) : Store P :=
  ds.foldr (fun pd s => put s pd.1 pd.2) ∅

/-- The value in field `f` of document `p`. -/
def field (s : Store P) (p : P) (f : String) : Option Value :=
  (s.get p).bind (Doc.get? · f)

/-- The array in field `f` of document `p`. -/
def elemsAt (s : Store P) (p : P) (f : String) : List Value :=
  elems (s.field p f)

/-- Databases with the same documents are the same. -/
theorem ext_get {s t : Store P} (h : ∀ p, s.get p = t.get p) : s = t := Finmap.ext_lookup h

@[simp] theorem get_empty (p : P) : get (∅ : Store P) p = none :=
  Finmap.lookup_empty p

@[simp] theorem get_put_self (s : Store P) (p : P) (d : Doc) :
    (s.put p d).get p = some d := Finmap.lookup_insert s

theorem get_put_of_ne (s : Store P) {p q : P} (d : Doc) (h : q ≠ p) :
    (s.put p d).get q = s.get q := Finmap.lookup_insert_of_ne s h

@[simp] theorem get_del_self (s : Store P) (p : P) : (s.del p).get p = none :=
  Finmap.lookup_erase p s

theorem get_del_of_ne (s : Store P) {p q : P} (h : q ≠ p) :
    (s.del p).get q = s.get q := Finmap.lookup_erase_ne h

theorem get_put (s : Store P) (p q : P) (d : Doc) :
    (s.put p d).get q = if q = p then some d else s.get q := by
  split
  · next h => subst h; exact s.get_put_self q d
  · next h => exact s.get_put_of_ne d h

theorem get_del (s : Store P) (p q : P) :
    (s.del p).get q = if q = p then none else s.get q := by
  split
  · next h => subst h; exact s.get_del_self q
  · next h => exact s.get_del_of_ne h

theorem get_ofList_cons (p q : P) (d : Doc) (ds : List (P × Doc)) :
    (ofList ((p, d) :: ds)).get q =
      if q = p then some d else (ofList ds).get q :=
  get_put (ofList ds) p q d

@[simp] theorem get_ofList_nil (q : P) : (ofList ([] : List (P × Doc))).get q = none :=
  get_empty q

theorem field_congr {s s' : Store P} {p : P} (h : s'.get p = s.get p)
    (f : String) : s'.field p f = s.field p f := by
  rw [field, h, field]

theorem elemsAt_congr {s s' : Store P} {p : P} (h : s'.get p = s.get p)
    (f : String) : s'.elemsAt p f = s.elemsAt p f := by
  rw [elemsAt, field_congr h, elemsAt]

theorem field_eq {s : Store P} {p : P} {d : Doc} (h : s.get p = some d)
    (f : String) : s.field p f = d.get? f := by
  rw [field, h, Option.bind_some]

theorem elemsAt_eq {s : Store P} {p : P} {d : Doc} (h : s.get p = some d)
    (f : String) : s.elemsAt p f = elems (d.get? f) := by
  rw [elemsAt, field_eq h]

theorem elemsAt_eq_nil {s : Store P} {p : P} (h : s.get p = none)
    (f : String) : s.elemsAt p f = [] := by
  rw [elemsAt, field, h, Option.bind_none, elems_none]

/-- A document with an element in one of its arrays exists. -/
theorem get_ne_none_of_mem {s : Store P} {p : P} {f : String} {v : Value}
    (h : v ∈ s.elemsAt p f) : s.get p ≠ none := by
  intro hn
  rw [elemsAt_eq_nil hn] at h
  cases h

end Store

/-! ## Writes -/

/-- A write to one document. -/
inductive Write (P : Type) where
  | set (p : P) (d : Doc)
  | update (p : P) (fs : List (String × FieldWrite))
  | delete (p : P)

namespace Write

variable {P : Type} [DecidableEq P]

/-- The document written to. -/
def path : Write P → P
  | .set p _ => p
  | .update p _ => p
  | .delete p => p

/-- The database after the write; `none` if the write fails
(`not-found`). -/
def apply (s : Store P) : Write P → Option (Store P)
  | .set p d => some (s.put p d)
  | .update p fs => (s.get p).map fun d => s.put p (d.update fs)
  | .delete p => some (s.del p)

@[simp] theorem apply_set (s : Store P) (p : P) (d : Doc) :
    (Write.set p d).apply s = some (s.put p d) := rfl

@[simp] theorem apply_delete (s : Store P) (p : P) :
    (Write.delete p).apply s = some (s.del p) := rfl

theorem apply_update_of_get {s : Store P} {p : P} {d : Doc}
    {fs : List (String × FieldWrite)} (h : s.get p = some d) :
    (Write.update p fs).apply s = some (s.put p (d.update fs)) := by
  rw [apply, h, Option.map_some]

theorem apply_update_of_none {s : Store P} {p : P}
    {fs : List (String × FieldWrite)} (h : s.get p = none) :
    (Write.update p fs).apply s = none := by
  rw [apply, h, Option.map_none]

/-- An `update` that succeeds finds a document. -/
theorem apply_update_eq_some {s s' : Store P} {p : P}
    {fs : List (String × FieldWrite)} (h : (Write.update p fs).apply s = some s') :
    ∃ d, s.get p = some d ∧ s' = s.put p (d.update fs) := by
  cases hd : s.get p with
  | none => rw [apply_update_of_none hd] at h; cases h
  | some d => rw [apply_update_of_get hd] at h; exact ⟨d, rfl, (Option.some.inj h).symm⟩

/-- A write changes no other document. -/
theorem get_of_ne {s s' : Store P} {w : Write P} (h : w.apply s = some s')
    {q : P} (hq : q ≠ w.path) : s'.get q = s.get q := by
  cases w with
  | set p d => cases h; exact s.get_put_of_ne d hq
  | update p fs =>
    obtain ⟨d, -, rfl⟩ := apply_update_eq_some h
    exact s.get_put_of_ne _ hq
  | delete p => cases h; exact s.get_del_of_ne hq

/-- An `update` removes no document. -/
theorem get_update_isSome {s s' : Store P} {p : P}
    {fs : List (String × FieldWrite)} (h : (Write.update p fs).apply s = some s')
    (q : P) : (s'.get q).isSome = (s.get q).isSome := by
  obtain ⟨d, hd, rfl⟩ := apply_update_eq_some h
  rw [Store.get_put]
  split
  · next hq => subst hq; rw [hd]; rfl
  · rfl

/-- What an `update` of one field leaves in any field. -/
theorem field_update_single {s s' : Store P} {p : P} {f : String}
    {w : FieldWrite} (h : (Write.update p [(f, w)]).apply s = some s')
    (q : P) (g : String) :
    s'.field q g =
      if q = p ∧ g = f then some (w.apply (s.field p f)) else s.field q g := by
  obtain ⟨d, hd, rfl⟩ := apply_update_eq_some h
  by_cases hq : q = p
  · subst hq
    rw [Store.field_eq (Store.get_put_self s q _), Doc.get?_update_single,
      Store.field_eq hd, Store.field_eq hd]
    simp
  · rw [Store.field_congr (s.get_put_of_ne _ hq)]
    simp [hq]

/-- `arrayUnion` adds its elements to its array and touches no other. -/
theorem mem_elemsAt_arrayUnion {s s' : Store P} {p : P} {f : String}
    {vs : List Value} (h : (Write.update p [(f, .arrayUnion vs)]).apply s = some s')
    {q : P} {g : String} {v : Value} :
    v ∈ s'.elemsAt q g ↔ v ∈ s.elemsAt q g ∨ (q = p ∧ g = f ∧ v ∈ vs) := by
  rw [Store.elemsAt, field_update_single h]
  split
  · next hc =>
    obtain ⟨rfl, rfl⟩ := hc
    simp [FieldWrite.apply, mem_unionTo, Store.elemsAt]
  · next hc =>
    refine ⟨.inl, ?_⟩
    rintro (hv | ⟨h1, h2, -⟩)
    · exact hv
    · exact absurd ⟨h1, h2⟩ hc

/-- `arrayRemove` takes its elements out of its array and touches no
other. -/
theorem mem_elemsAt_arrayRemove {s s' : Store P} {p : P} {f : String}
    {vs : List Value} (h : (Write.update p [(f, .arrayRemove vs)]).apply s = some s')
    {q : P} {g : String} {v : Value} :
    v ∈ s'.elemsAt q g ↔ v ∈ s.elemsAt q g ∧ ¬ (q = p ∧ g = f ∧ v ∈ vs) := by
  rw [Store.elemsAt, field_update_single h]
  split
  · next hc =>
    obtain ⟨rfl, rfl⟩ := hc
    simp [FieldWrite.apply, Store.elemsAt]
  · next hc =>
    refine ⟨fun hv => ⟨hv, fun hn => hc ⟨hn.1, hn.2.1⟩⟩, fun hv => hv.1⟩

end Write

end GottaGo.Firestore
