/-
GottaGo.Visits.Restore — restoring a place undoes marking it visited.

`movePlace` run to its end deletes one document and sets another
(`eval_movePlace`). A place that the app has written under its own id is
decoded and encoded twice on its way there and back, and both documents end
as they were: the codec loses nothing, and the other subcollection held
nothing under the id. `restore_undoes` is stated for both directions at
once; `slot false` is `places` and `slot true` is `visited_places`.
-/
import GottaGo.Model.Codecs
import GottaGo.Visits.Moves

namespace GottaGo

open GottaGo.Async GottaGo.Firestore

section Completed

variable (src dst : String → String → Path) {place : Place} {placeList : PlaceList}
  {l id : String}

/-- A move that nothing interrupts deletes one document and sets the other. -/
theorem eval_movePlace (hid : place.placeId = some id) (hl : placeList.placeListId = some l)
    (st : AppState) :
    ∃ st', Prog.eval (serve {}) (PlaceListRepository.movePlace src dst place placeList) st =
        (.ok (), st') ∧
      st'.store = (st.store.del (src l id)).put (dst l id) (Doc.ofList place.toDocument) := by
  rw [movePlace_eq hid hl]
  exact ⟨_, eval_rethrowing_eq_ok.mpr rfl, rfl⟩

end Completed

/-- The call that moves a place out of a subcollection. -/
def moveOut : Bool → Place → PlaceList → App Unit
  | false => PlaceListRepository.markPlaceVisited
  | true => PlaceListRepository.restoreVisitedPlace

theorem moveOut_eq (d : Bool) :
    moveOut d = PlaceListRepository.movePlace (slot d) (slot !d) := by
  cases d <;> rfl

/-- `Place.fromSnapshot(await ref.get())`. -/
def readPlace (ref : Path) : App Place := do
  let snap ← Fire.get ref
  Prog.ofExcept (Place.fromSnapshot snap)

/-- Place `id` of a list is read and moved out of subcollection `d`, then read
and moved back. -/
def thereAndBack (d : Bool) (placeList : PlaceList) (l id : String) : App Unit := do
  let place ← readPlace (slot d l id)
  moveOut d place placeList
  let moved ← readPlace (slot (!d) l id)
  moveOut (!d) moved placeList

theorem eval_readPlace {st : AppState} {ref : Path} {place : Place}
    (h : st.store.get ref = some (Doc.ofList place.toDocument)) :
    Prog.eval (serve {}) (readPlace ref) st = (.ok place, st) := by
  simp [readPlace, h, Place.fromSnapshot_toDocument]

/-- A document set elsewhere and deleted again, with the first one put back. -/
theorem there_and_back {P : Type} [DecidableEq P] {s : Store P} {p q : P} {d : Doc}
    (hne : q ≠ p) (hp : s.get p = some d) (hq : s.get q = none) :
    (((s.del p).put q d).del q).put p d = s := by
  refine Store.ext_get fun r => ?_
  by_cases hr : r = p
  · subst hr
    rw [Store.get_put_self, hp]
  · rw [Store.get_put_of_ne _ _ hr]
    by_cases hr' : r = q
    · subst hr'
      rw [Store.get_del_self, hq]
    · rw [Store.get_del_of_ne _ hr', Store.get_put_of_ne _ _ hr', Store.get_del_of_ne _ hr]

/-- Moving back undoes moving: the database is as it was. -/
theorem restore_undoes (d : Bool) (st : AppState) (placeList : PlaceList) (l id : String)
    (place : Place) (hl : placeList.placeListId = some l) (hid : place.placeId = some id)
    (hdoc : st.store.get (slot d l id) = some (Doc.ofList place.toDocument))
    (hfree : st.store.get (slot (!d) l id) = none) :
    ∃ st', Prog.eval (serve {}) (thereAndBack d placeList l id) st = (.ok (), st') ∧
      st'.store = st.store := by
  obtain ⟨st₁, hrun₁, hstore₁⟩ := eval_movePlace (slot d) (slot !d) hid hl st
  obtain ⟨st₂, hrun₂, hstore₂⟩ := eval_movePlace (slot !d) (slot !!d) hid hl st₁
  have hmoved : st₁.store.get (slot (!d) l id) = some (Doc.ofList place.toDocument) := by
    rw [hstore₁, Store.get_put_self]
  refine ⟨st₂, ?_, ?_⟩
  · simp only [thereAndBack, Prog.bind_eq, Prog.eval_bind, eval_readPlace hdoc, moveOut_eq,
      hrun₁, eval_readPlace hmoved, hrun₂]
  · rw [hstore₂, hstore₁, Bool.not_not]
    exact there_and_back (slot_ne d l id) hdoc hfree

/-- The Colosseum is marked visited and restored. -/
theorem restore_undoes_colosseum :
    ∃ st', Prog.eval (serve {}) (thereAndBack false rome "rome" "p1")
        { store := onePlace colosseum "rome" "p1" } = (.ok (), st') ∧
      st'.store = onePlace colosseum "rome" "p1" :=
  restore_undoes false _ rome "rome" "p1" colosseum rfl rfl rfl rfl

end GottaGo
