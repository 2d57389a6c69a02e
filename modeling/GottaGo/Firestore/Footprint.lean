/-
GottaGo.Firestore.Footprint — the writes a client function may issue, and
the listeners it may leave open.

`FootprintIf rely W B t` says that every write that `t` ever issues
satisfies `W` and every listener it opens satisfies `B`, as long as it is
told only what `rely` admits. Reads and drawn ids are free. The lemmas go
through a function's text, one for each call of the client library.
-/
import GottaGo.Firestore.Client

namespace GottaGo.Firestore

open GottaGo.Async Prog

variable {P L α β : Type}

/-- A request that writes only what `W` admits, and listens only as `B`
admits. -/
def Asks (W : Write P → Prop) (B : L → Prop) : Req P L → Prop
  | .write w => W w
  | .listen _ l => B l
  | _ => True

/-- Told what `rely` admits, `t` writes only what `W` admits and listens
only as `B` admits. -/
abbrev FootprintIf (rely : (q : Req P L) → Except Err (Ans q) → Prop)
    (W : Write P → Prop) (B : L → Prop) (t : Fire P L α) : Prop :=
  t.Respects rely (Asks W B)

variable {rely : (q : Req P L) → Except Err (Ans q) → Prop} {W : Write P → Prop}
  {B : L → Prop}

theorem Asks.mono {W' : Write P → Prop} {q : Req P L} (h : Asks W B q)
    (hW : ∀ w, W w → W' w) : Asks W' B q := by
  cases q with
  | write w => exact hW w h
  | _ => exact h

namespace FootprintIf

theorem set {p : P} {fs : List (String × Value)} (h : W (.set p (Doc.ofList fs))) :
    FootprintIf rely W B (Fire.set p fs) :=
  respects_await h

theorem update {p : P} {fs : List (String × FieldWrite)} (h : W (.update p fs)) :
    FootprintIf rely W B (Fire.update p fs) :=
  respects_await h

theorem delete {p : P} (h : W (.delete p)) : FootprintIf rely W B (Fire.delete p) :=
  respects_await h

theorem get (p : P) : FootprintIf rely W B (Fire.get p) :=
  respects_await trivial

/-- What follows a `get` may use what its answer is known to be. -/
theorem get_bind {p : P} {f : Option Doc → Fire P L β}
    (h : ∀ snap, rely (.get p) (.ok snap) → FootprintIf rely W B (f snap)) :
    FootprintIf rely W B ((Fire.get p).bind f) :=
  respects_await_bind trivial h

theorem snapshot (p : P) : FootprintIf rely W B (Fire.snapshot p) :=
  respects_await trivial

theorem newDoc (coll : String → P) : FootprintIf rely W B (Fire.newDoc coll) :=
  respects_await trivial

theorem bang (x : Option α) : FootprintIf rely W B (Fire.bang x) := by
  cases x <;> trivial

/-- What follows `coll.doc(…)` works on a document of the collection. -/
theorem doc_bind {coll : String → P} {id : Option String} {f : P → Fire P L β}
    (h : ∀ id, FootprintIf rely W B (f (coll id))) :
    FootprintIf rely W B ((Fire.doc coll id).bind f) := by
  cases id with
  | some id => exact h id
  | none =>
    rw [Fire.doc, bind_assoc]
    exact respects_await_bind trivial fun id _ => h id

theorem onFirebaseException {t h : Fire P L α} (ht : FootprintIf rely W B t)
    (hh : FootprintIf rely W B h) : FootprintIf rely W B (Fire.onFirebaseException t h) := by
  refine ht.tryCatch fun e => ?_
  split
  · exact hh
  · trivial

end FootprintIf

end GottaGo.Firestore
