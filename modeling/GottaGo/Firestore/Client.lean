/-
GottaGo.Firestore.Client — the client library: what a program may ask
of the database, and how the database answers.

A program (`Fire`) awaits five kinds of request: a write, a `get`, the
snapshot of a document that a listener has delivered by the end of a
wait, the opening of a listener that stays, and the id of a new document
(`collection.doc()`). `serve` answers one request. Its `Outcome` is what
the program has no say in: whether the request fails, whether a snapshot
comes too late, which id is drawn. A request that fails leaves the
database as it was.

`State` keeps, next to the documents, what runs need to be talked about:
the ids drawn, the writes committed, the listeners that are open, and
the snapshots they have not been handed yet. A listener is due the
snapshot of the moment it is opened and one for every later write that
changes its document. It is closed by nothing in this model.

`Served` is `serve` when nothing fails: requests succeed, snapshots come
in time, drawn ids are fresh. `Answered` is `serve` with any outcome.
-/
import GottaGo.Async.Schedule
import GottaGo.Firestore.Store

namespace GottaGo.Firestore

open GottaGo.Async

/-- What a program may await. `L` names the listeners that stay open. -/
inductive Req (P L : Type) where
  | write (w : Write P)
  | get (p : P)
  | snapshot (p : P)
  | listen (p : P) (l : L)
  | newDoc (coll : String → P)

/-- Whether the request is a write. -/
def Req.isWrite {P L : Type} : Req P L → Bool
  | .write _ => true
  | _ => false

/-- The answer to a request. A snapshot is `none` when it has not come in
time, and `some none` when the document does not exist. -/
@[reducible] def Ans {P L : Type} : Req P L → Type
  | .write _ => Unit
  | .get _ => Option Doc
  | .snapshot _ => Option (Option Doc)
  | .listen _ _ => Unit
  | .newDoc _ => String

/-- The database, and what has happened to it so far. -/
structure State (P L : Type) where
  store : Store P
  drawn : List String := []
  log : List (Write P) := []
  listeners : List (P × L) := []
  feed : List (L × Option Doc) := []

/-- What the environment decides about one request. -/
structure Outcome where
  fault : Bool := false
  late : Bool := false
  draw : String := ""
  deriving DecidableEq, Repr

variable {P L : Type} [DecidableEq P]

namespace State

/-- The snapshots a write that turns `s` into `s'` owes the listeners. -/
def owed (ls : List (P × L)) (p : P) (s s' : Store P) : List (L × Option Doc) :=
  if s'.get p = s.get p then []
  else (ls.filter fun l => l.1 = p).map fun l => (l.2, s'.get p)

/-- The state after write `w` has left the documents `s'`. -/
def commit (st : State P L) (w : Write P) (s' : Store P) : State P L :=
  { st with
    store := s'
    log := st.log ++ [w]
    feed := st.feed ++ owed st.listeners w.path st.store s' }

/-- The state after listener `l` has been opened on document `p`. -/
def open_ (st : State P L) (p : P) (l : L) : State P L :=
  { st with
    listeners := st.listeners ++ [(p, l)]
    feed := st.feed ++ [(l, st.store.get p)] }

/-- The state after id `id` has been drawn. -/
def draw (st : State P L) (id : String) : State P L :=
  { st with drawn := id :: st.drawn }

@[simp] theorem commit_store (st : State P L) (w : Write P) (s' : Store P) :
    (st.commit w s').store = s' := rfl

@[simp] theorem commit_log (st : State P L) (w : Write P) (s' : Store P) :
    (st.commit w s').log = st.log ++ [w] := rfl

@[simp] theorem commit_feed (st : State P L) (w : Write P) (s' : Store P) :
    (st.commit w s').feed =
      st.feed ++ owed st.listeners w.path st.store s' := rfl

omit [DecidableEq P] in
@[simp] theorem draw_store (st : State P L) (id : String) :
    (st.draw id).store = st.store := rfl

end State

/-- Answer one request. -/
def serve (o : Outcome) : (q : Req P L) → State P L → Except Err (Ans q) × State P L
  | .write w, st =>
    if o.fault then (.error .firebase, st)
    else match w.apply st.store with
      | some s' => (.ok (), st.commit w s')
      | none => (.error .firebase, st)
  | .get p, st =>
    if o.fault then (.error .firebase, st) else (.ok (st.store.get p), st)
  | .snapshot p, st =>
    -- a stream error never reaches the waiting function
    (.ok (if o.fault || o.late then none else some (st.store.get p)), st)
  | .listen p l, st => (.ok (), st.open_ p l)
  | .newDoc _, st => (.ok o.draw, st.draw o.draw)

/-- The server whose environment decides by what it is asked. For a call
that asks for no thing twice, the policies are all the choices of which of
its requests fail or come late. -/
def serveBy (π : Req P L → Outcome) (q : Req P L) (st : State P L) :
    Except Err (Ans q) × State P L :=
  serve (π q) q st

/-- The server that fails request number `k` and no other. It counts the
requests it has answered. -/
def failAt (k : Nat) (q : Req P L) (ns : Nat × State P L) :
    Except Err (Ans q) × (Nat × State P L) :=
  let rst := serve { fault := decide (ns.1 = k) } q ns.2
  (rst.1, ns.1 + 1, rst.2)

/-- A drawn id names no document of its collection and was not drawn
before. -/
def Fresh (st : State P L) (coll : String → P) (id : String) : Prop :=
  st.store.get (coll id) = none ∧ id ∉ st.drawn

/-- The outcomes of a database that never fails. -/
def Reliable (o : Outcome) (st : State P L) : Req P L → Prop
  | .write _ => o.fault = false
  | .get _ => o.fault = false
  | .snapshot _ => o.fault = false ∧ o.late = false
  | .listen _ _ => True
  | .newDoc coll => Fresh st coll o.draw

/-- Request `q` may be answered by `r`, leaving `st'`, when nothing
fails. -/
def Served (q : Req P L) (st : State P L) (r : Except Err (Ans q))
    (st' : State P L) : Prop :=
  ∃ o, Reliable o st q ∧ serve o q st = (r, st') ∧ ∃ a, r = .ok a

/-- Whether `Served` admits an outcome, decided. -/
def serves (o : Outcome) (q : Req P L) (st : State P L) : Bool :=
  (match q with
    | .write _ | .get _ => !o.fault
    | .snapshot _ => !o.fault && !o.late
    | .listen _ _ => true
    | .newDoc coll => (st.store.get (coll o.draw)).isNone && o.draw ∉ st.drawn) &&
  (serve o q st).1.isOk

theorem served_of_serves (o : Outcome) (q : Req P L) (st : State P L)
    (h : serves o q st = true) : Served q st (serve o q st).1 (serve o q st).2 := by
  unfold serves at h
  rw [Bool.and_eq_true] at h
  refine ⟨o, ?_, rfl, ?_⟩
  · cases q with
    | write w => simpa [Reliable] using h.1
    | get p => simpa [Reliable] using h.1
    | snapshot p => simpa [Reliable] using h.1
    | listen p l => trivial
    | newDoc coll => simpa [Reliable, Fresh] using h.1
  · cases hs : (serve o q st).1 with
    | ok a => exact ⟨a, rfl⟩
    | error e =>
      rw [hs] at h
      cases h.2

/-- A step of a call when nothing fails and the outcome is `o`. -/
def nextServed {α : Type} (o : Outcome) (st : State P L) (t : Prog (Req P L) Ans Err α) :
    Option (State P L × Prog (Req P L) Ans Err α) :=
  Prog.next serve serves o st t

theorem step_of_nextServed {α : Type} (o : Outcome) (st : State P L)
    (t : Prog (Req P L) Ans Err α) (st' : State P L) (t' : Prog (Req P L) Ans Err α)
    (h : nextServed o st t = some (st', t')) : Prog.Step Served st t st' t' :=
  Prog.step_of_next served_of_serves h

section Served

variable {st st' : State P L}

/-- A write that is served is one that applies. -/
theorem served_write {w : Write P} {r : Except Err (Ans (.write w : Req P L))} :
    Served (.write w) st r st' ↔
      ∃ s', w.apply st.store = some s' ∧ r = .ok () ∧ st' = st.commit w s' := by
  constructor
  · intro hx
    obtain ⟨o, ho, hs, a, rfl⟩ := hx
    have hf : o.fault = false := ho
    simp only [serve, hf, Bool.false_eq_true, if_false] at hs
    split at hs
    · next s' hw =>
      cases hs
      exact ⟨s', hw, rfl, rfl⟩
    · cases hs
  · intro hx
    obtain ⟨s', hw, rfl, rfl⟩ := hx
    exact ⟨{}, rfl, by simp [serve, hw], (), rfl⟩

theorem served_get {p : P} {r : Except Err (Ans (.get p : Req P L))} :
    Served (.get p) st r st' ↔ r = .ok (st.store.get p) ∧ st' = st := by
  constructor
  · intro hx
    obtain ⟨o, ho, hs, -⟩ := hx
    have hf : o.fault = false := ho
    simp only [serve, hf, Bool.false_eq_true, if_false] at hs
    cases hs
    exact ⟨rfl, rfl⟩
  · intro hx
    obtain ⟨rfl, rfl⟩ := hx
    exact ⟨{}, rfl, rfl, _, rfl⟩

theorem served_snapshot {p : P} {r : Except Err (Ans (.snapshot p : Req P L))} :
    Served (.snapshot p) st r st' ↔
      r = .ok (some (st.store.get p)) ∧ st' = st := by
  constructor
  · intro hx
    obtain ⟨o, ⟨hf, hl⟩, hs, -⟩ := hx
    simp only [serve, hf, hl, Bool.or_false, Bool.false_eq_true, if_false] at hs
    cases hs
    exact ⟨rfl, rfl⟩
  · intro hx
    obtain ⟨rfl, rfl⟩ := hx
    exact ⟨{}, ⟨rfl, rfl⟩, rfl, _, rfl⟩

theorem served_newDoc {coll : String → P}
    {r : Except Err (Ans (.newDoc coll : Req P L))} :
    Served (.newDoc coll) st r st' ↔
      ∃ id, Fresh st coll id ∧ r = .ok id ∧ st' = st.draw id := by
  constructor
  · intro hx
    obtain ⟨o, ho, hs, -⟩ := hx
    cases hs
    exact ⟨o.draw, ho, rfl, rfl⟩
  · intro hx
    obtain ⟨id, hid, rfl, rfl⟩ := hx
    exact ⟨{ draw := id }, hid, rfl, id, rfl⟩

end Served

/-! ## Answers that may be failures -/

/-- Some answer to a request, failures included. -/
def Answered (q : Req P L) (st : State P L) (r : Except Err (Ans q))
    (st' : State P L) : Prop :=
  ∃ o, serve o q st = (r, st')

section Answered

variable {st st' : State P L}

theorem Answered.write {w : Write P} {r : Except Err (Ans (.write w : Req P L))}
    (h : Answered (.write w) st r st') :
    (r = .error .firebase ∧ st' = st) ∨
      ∃ s', w.apply st.store = some s' ∧ r = .ok () ∧ st' = st.commit w s' := by
  obtain ⟨o, ho⟩ := h
  simp only [serve] at ho
  split at ho
  · cases ho
    exact .inl ⟨rfl, rfl⟩
  · split at ho
    · next s' hw =>
      cases ho
      exact .inr ⟨s', hw, rfl, rfl⟩
    · cases ho
      exact .inl ⟨rfl, rfl⟩

theorem Answered.get {p : P} {r : Except Err (Ans (.get p : Req P L))}
    (h : Answered (.get p) st r st') :
    (r = .error .firebase ∨ r = .ok (st.store.get p)) ∧ st' = st := by
  obtain ⟨o, ho⟩ := h
  simp only [serve] at ho
  split at ho
  · cases ho
    exact ⟨.inl rfl, rfl⟩
  · cases ho
    exact ⟨.inr rfl, rfl⟩

/-- An answered request leaves the documents and the log, or is a write
that succeeds. -/
theorem Answered.cases {q : Req P L} {r : Except Err (Ans q)} (h : Answered q st r st') :
    (st'.store = st.store ∧ st'.log = st.log ∧ ∀ w, q = .write w → ¬ ∃ a, r = .ok a) ∨
      ∃ w s', q = .write w ∧ w.apply st.store = some s' ∧ st' = st.commit w s' ∧
        ∃ a, r = .ok a := by
  cases q with
  | write w =>
    rcases h.write with ⟨rfl, rfl⟩ | ⟨s', hw, rfl, rfl⟩
    · exact .inl ⟨rfl, rfl, fun _ _ => by simp⟩
    · exact .inr ⟨w, s', rfl, hw, rfl, (), rfl⟩
  | get p => rw [h.get.2]; exact .inl ⟨rfl, rfl, fun _ hw => by cases hw⟩
  | snapshot p =>
    obtain ⟨o, ho⟩ := h
    cases ho
    exact .inl ⟨rfl, rfl, fun _ hw => by cases hw⟩
  | listen p l =>
    obtain ⟨o, ho⟩ := h
    cases ho
    exact .inl ⟨rfl, rfl, fun _ hw => by cases hw⟩
  | newDoc coll =>
    obtain ⟨o, ho⟩ := h
    cases ho
    exact .inl ⟨rfl, rfl, fun _ hw => by cases hw⟩

end Answered

/-! ## The calls of the client library -/

/-- An asynchronous function of the client. -/
abbrev Fire (P L α : Type) := Prog (Req P L) Ans Err α

namespace Fire

variable {α : Type}

omit [DecidableEq P]

def set (p : P) (fs : List (String × Value)) : Fire P L Unit :=
  Prog.await (Req.write (.set p (Doc.ofList fs)))

def update (p : P) (fs : List (String × FieldWrite)) : Fire P L Unit :=
  Prog.await (Req.write (.update p fs))

def delete (p : P) : Fire P L Unit := Prog.await (Req.write (.delete p))

def get (p : P) : Fire P L (Option Doc) := Prog.await (Req.get p)

/-- Listen to `p`, wait, and take the snapshot that has come. -/
def snapshot (p : P) : Fire P L (Option (Option Doc)) := Prog.await (Req.snapshot p)

def listen (p : P) (l : L) : Fire P L Unit := Prog.await (Req.listen p l)

/-- `coll.doc()`. -/
def newDoc (coll : String → P) : Fire P L String := Prog.await (Req.newDoc coll)

/-- `coll.doc(id)`: without an id, a new document. -/
def doc (coll : String → P) : Option String → Fire P L P
  | some id => pure (coll id)
  | none => (newDoc coll).bind fun id => pure (coll id)

/-- `x!`. -/
def bang : Option α → Fire P L α
  | some a => pure a
  | none => .raise .typeError

/-- `try t on FirebaseException { h }`; other exceptions pass. -/
def onFirebaseException (t h : Fire P L α) : Fire P L α :=
  t.tryCatch fun e => if e = .firebase then h else .raise e

@[simp] theorem doc_some (coll : String → P) (id : String) :
    (doc coll (some id) : Fire P L P) = .ret (coll id) := rfl

@[simp] theorem bang_some (a : α) : (bang (some a) : Fire P L α) = .ret a := rfl

end Fire

/-! ## A call that nothing interleaves with and nothing fails for -/

section Eval

open Prog

variable (st : State P L) (p : P)

@[simp] theorem eval_set (fs : List (String × Value)) :
    eval (serve {}) (Fire.set p fs) st =
      (.ok (), st.commit (.set p (Doc.ofList fs)) (st.store.put p (Doc.ofList fs))) := by
  rw [Fire.set, eval_await]
  rfl

@[simp] theorem eval_delete :
    eval (serve {}) (Fire.delete p) st =
      (.ok (), st.commit (.delete p) (st.store.del p)) := by
  rw [Fire.delete, eval_await]
  rfl

@[simp] theorem eval_get :
    eval (serve {}) (Fire.get p) st = (.ok (st.store.get p), st) := by
  rw [Fire.get, eval_await]
  rfl

theorem eval_update {s' : Store P} {fs : List (String × FieldWrite)}
    (h : (Write.update p fs).apply st.store = some s') :
    eval (serve {}) (Fire.update p fs) st = (.ok (), st.commit (.update p fs) s') := by
  rw [Fire.update, eval_await]
  simp [serve, h]

theorem eval_update_of_none {fs : List (String × FieldWrite)}
    (h : st.store.get p = none) :
    eval (serve {}) (Fire.update p fs) st = (.error .firebase, st) := by
  rw [Fire.update, eval_await]
  simp [serve, Write.apply_update_of_none h]

end Eval

/-! ## A call some of whose requests fail -/

section Faults

open Prog

variable {π : Req P L → Outcome} (st : State P L)

/-- A write that fails throws, and changes nothing. -/
theorem eval_write_of_fault {w : Write P} (h : (π (.write w)).fault = true) :
    eval (serveBy π) (await (.write w)) st = (.error .firebase, st) := by
  rw [eval_await, serveBy, serve, if_pos h]

theorem eval_write_of_none {w : Write P} (h : w.apply st.store = none) :
    eval (serveBy π) (await (.write w)) st = (.error .firebase, st) := by
  rw [eval_await, serveBy, serve]
  split
  · rfl
  · rw [h]

theorem eval_write_of_some {w : Write P} {s' : Store P}
    (hf : (π (.write w)).fault = false) (h : w.apply st.store = some s') :
    eval (serveBy π) (await (.write w)) st = (.ok (), st.commit w s') := by
  rw [eval_await, serveBy, serve, hf, h]
  rfl

/-- An `update` goes through when it does not fail and there is a document. -/
theorem eval_update_cases (p : P) (fs : List (String × FieldWrite)) :
    (((st.store.get p).isSome ∧ (π (.write (.update p fs))).fault = false) ∧
        ∃ s', (Write.update p fs).apply st.store = some s' ∧
          eval (serveBy π) (await (.write (.update p fs))) st =
            (.ok (), st.commit (.update p fs) s')) ∨
      (¬ ((st.store.get p).isSome ∧ (π (.write (.update p fs))).fault = false) ∧
        eval (serveBy π) (await (.write (.update p fs))) st = (.error .firebase, st)) := by
  cases hf : (π (.write (.update p fs))).fault with
  | true => exact .inr ⟨by simp, eval_write_of_fault st hf⟩
  | false =>
    cases hd : st.store.get p with
    | none => exact .inr ⟨by simp, eval_write_of_none st (Write.apply_update_of_none hd)⟩
    | some d =>
      have hw : (Write.update p fs).apply st.store = some _ := Write.apply_update_of_get hd
      exact .inl ⟨by simp, _, hw, eval_write_of_some st hf hw⟩

/-- No id that was drawn is forgotten. -/
theorem drawn_subset_eval {α : Type} (t : Fire P L α) :
    st.drawn ⊆ (eval (serveBy π) t st).2.drawn := by
  induction t generalizing st with
  | ret a => exact fun _ h => h
  | raise e => exact fun _ h => h
  | ask q k ih =>
    have hstep : st.drawn ⊆ (serveBy π q st).2.drawn := by
      unfold serveBy serve
      cases q with
      | write w =>
        intro id hid
        dsimp only
        split
        · exact hid
        · split <;> exact hid
      | get p =>
        intro id hid
        dsimp only
        split <;> exact hid
      | snapshot p => exact fun _ h => h
      | listen p l => exact fun _ h => h
      | newDoc coll => exact fun _ h => List.mem_cons_of_mem _ h
    rw [eval_ask]
    exact List.Subset.trans hstep (ih _ _)

/-- The snapshot that has come by the end of the wait. -/
theorem eval_snapshot (p : P) :
    eval (serveBy π) (Fire.snapshot p) st =
      (.ok (if (π (.snapshot p)).fault || (π (.snapshot p)).late then none
        else some (st.store.get p)), st) := by
  rw [Fire.snapshot, eval_await]
  rfl

end Faults

end GottaGo.Firestore
