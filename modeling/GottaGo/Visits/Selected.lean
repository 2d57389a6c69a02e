/-
GottaGo.Visits.Selected — a batch edit does to the database exactly what was
selected.

The three batches of `EditPlacesBloc` run over the selected places, any
number of times over the same one. Each call deletes a document below the
list, or deletes one and sets another, so a batch is a fold of `del` and
`put` (`eval_batch`), and what it leaves under each path is read off the
fold: nothing under the ids deleted, the last selected place under the ids
marked visited, and what was there anywhere else. The totals of the profile
page follow by counting ids.
-/
import GottaGo.Bloc.Editing
import GottaGo.Repository.Totals
import GottaGo.Visits.Restore

namespace GottaGo

open GottaGo.Async GottaGo.Firestore

/-- The ids of the selected places. -/
def selectedIds (selectedPlaces : List Place) : Finset String :=
  (selectedPlaces.filterMap Place.placeId).toFinset

/-- The last selected place with an id. -/
def lastSelected (selectedPlaces : List Place) (id : String) : Option Place :=
  selectedPlaces.reverse.find? fun place => place.placeId = some id

theorem mem_selectedIds {selectedPlaces : List Place} {id : String} :
    id ∈ selectedIds selectedPlaces ↔ ∃ place ∈ selectedPlaces, place.placeId = some id := by
  simp [selectedIds]

theorem selectedIds_cons {place : Place} {id : String} (h : place.placeId = some id)
    (places : List Place) : selectedIds (place :: places) = insert id (selectedIds places) := by
  simp [selectedIds, h]

/-- A later place with the id comes before the first. -/
theorem lastSelected_cons {place : Place} {id : String} (h : place.placeId = some id)
    (places : List Place) (x : String) :
    lastSelected (place :: places) x =
      (lastSelected places x).or (if x = id then some place else none) := by
  by_cases hx : x = id
  · simp [lastSelected, h, hx]
  · have hx' : id ≠ x := fun e => hx e.symm
    simp [lastSelected, h, hx, hx']

theorem lastSelected_isSome {places : List Place} {id : String} :
    (lastSelected places id).isSome ↔ id ∈ selectedIds places := by
  simp [lastSelected, mem_selectedIds]

/-! ## What a batch leaves -/

/-- The selected places are gone from subcollection `d` of list `l`, and
nothing else has changed. -/
structure Deleted (d : Bool) (l : String) (places : List Place) (s s' : Store Path) : Prop where
  gone : ∀ id ∈ selectedIds places, s'.get (slot d l id) = none
  others : ∀ q, (∀ id ∈ selectedIds places, q ≠ slot d l id) → s'.get q = s.get q

/-- The selected places are gone from `places` and are in `visited_places` as
they were last selected, and nothing else has changed. -/
structure MarkedVisited (l : String) (places : List Place) (s s' : Store Path) : Prop where
  gone : ∀ id ∈ selectedIds places, s'.get (.places l id) = none
  visited : ∀ id place, lastSelected places id = some place →
    s'.get (.visitedPlaces l id) = some (Doc.ofList place.toDocument)
  others : ∀ q, (∀ id ∈ selectedIds places, q ≠ .places l id ∧ q ≠ .visitedPlaces l id) →
    s'.get q = s.get q

section Steps

variable {l id : String} {place : Place} {places : List Place} {s s' : Store Path}

/-- One more place deleted first. -/
theorem Deleted.cons {d : Bool} (hid : place.placeId = some id)
    (h : Deleted d l places (s.del (slot d l id)) s') : Deleted d l (place :: places) s s' where
  gone := by
    intro x hx
    rw [selectedIds_cons hid] at hx
    by_cases hmem : x ∈ selectedIds places
    · exact h.gone x hmem
    · obtain rfl := (Finset.mem_insert.mp hx).resolve_right hmem
      have hother : ∀ y ∈ selectedIds places, slot d l x ≠ slot d l y := by
        intro y hy he
        rw [(slot_inj he).2] at hmem
        exact hmem hy
      rw [h.others _ hother, Store.get_del_self]
  others := by
    intro q hq
    rw [selectedIds_cons hid] at hq
    rw [h.others q fun x hx => hq x (Finset.mem_insert_of_mem hx),
      Store.get_del_of_ne _ (hq id (Finset.mem_insert_self ..))]

/-- One more place marked visited first. -/
theorem MarkedVisited.cons (hid : place.placeId = some id)
    (h : MarkedVisited l places
      ((s.del (.places l id)).put (.visitedPlaces l id) (Doc.ofList place.toDocument)) s') :
    MarkedVisited l (place :: places) s s' where
  gone := by
    intro x hx
    rw [selectedIds_cons hid] at hx
    by_cases hmem : x ∈ selectedIds places
    · exact h.gone x hmem
    · obtain rfl := (Finset.mem_insert.mp hx).resolve_right hmem
      have hother : ∀ y ∈ selectedIds places,
          Path.places l x ≠ .places l y ∧ Path.places l x ≠ .visitedPlaces l y := by
        intro y hy
        refine ⟨fun he => ?_, Path.noConfusion⟩
        cases he
        exact hmem hy
      rw [h.others _ hother, Store.get_put_of_ne _ _ Path.noConfusion, Store.get_del_self]
  visited := by
    intro x p hx
    rw [lastSelected_cons hid] at hx
    cases hlast : lastSelected places x with
    | some p' =>
      rw [hlast, Option.some_or] at hx
      exact h.visited x p (hlast.trans hx)
    | none =>
      rw [hlast, Option.none_or] at hx
      split at hx
      · next hxid =>
        cases hx
        subst hxid
        have hmem : x ∉ selectedIds places := by
          rw [← lastSelected_isSome, hlast]
          exact Bool.noConfusion
        have hother : ∀ y ∈ selectedIds places,
            Path.visitedPlaces l x ≠ .places l y ∧
              Path.visitedPlaces l x ≠ .visitedPlaces l y := by
          intro y hy
          refine ⟨Path.noConfusion, fun he => ?_⟩
          cases he
          exact hmem hy
        rw [h.others _ hother, Store.get_put_self]
      · cases hx
  others := by
    intro q hq
    rw [selectedIds_cons hid] at hq
    obtain ⟨hp, hv⟩ := hq id (Finset.mem_insert_self ..)
    rw [h.others q fun x hx => hq x (Finset.mem_insert_of_mem hx),
      Store.get_put_of_ne _ _ hv, Store.get_del_of_ne _ hp]

end Steps

theorem Deleted.nil (d : Bool) (l : String) (s : Store Path) : Deleted d l [] s s where
  gone := by simp [selectedIds]
  others := fun _ _ => rfl

theorem MarkedVisited.nil (l : String) (s : Store Path) : MarkedVisited l [] s s where
  gone := by simp [selectedIds]
  visited := by simp [lastSelected]
  others := fun _ _ => rfl

/-! ## The loops -/

/-- The call that deletes a place from a subcollection. -/
def deleteFrom : Bool → Place → PlaceList → App Unit
  | false => PlaceListRepository.removePlaceFromList
  | true => PlaceListRepository.removePlaceFromVisitedList

section Loops

variable {placeList : PlaceList} {l : String}

theorem eval_deleteFrom (d : Bool) {place : Place} {id : String}
    (hid : place.placeId = some id) (hl : placeList.placeListId = some l) (st : AppState) :
    ∃ st', Prog.eval (serve {}) (deleteFrom d place placeList) st = (.ok (), st') ∧
      st'.store = st.store.del (slot d l id) := by
  cases d with
  | false =>
    rw [deleteFrom, PlaceListRepository.removePlaceFromList, PlaceListRepository.placeRef,
      PlaceListRepository.movePlace.listId, hl, hid]
    exact ⟨_, eval_rethrowing_eq_ok.mpr rfl, rfl⟩
  | true =>
    rw [deleteFrom, PlaceListRepository.removePlaceFromVisitedList, PlaceListRepository.placeRef,
      PlaceListRepository.movePlace.listId, hl, hid]
    exact ⟨_, eval_rethrowing_eq_ok.mpr rfl, rfl⟩

/-- A loop whose first call returns, and whose other calls return after it. -/
theorem eval_forM_cons {call : Place → App Unit} {place : Place} {places : List Place}
    {st st₁ st₂ : AppState} (h₁ : Prog.eval (serve {}) (call place) st = (.ok (), st₁))
    (h₂ : Prog.eval (serve {}) (places.forM call) st₁ = (.ok (), st₂)) :
    Prog.eval (serve {}) ((place :: places).forM call) st = (.ok (), st₂) := by
  simp only [List.forM, Prog.bind_eq, Prog.eval_bind, h₁]
  exact h₂

theorem eval_deleteFrom_forM (d : Bool) (hl : placeList.placeListId = some l)
    {places : List Place} (hids : ∀ place ∈ places, place.placeId ≠ none) (st : AppState) :
    ∃ st', Prog.eval (serve {}) (places.forM fun place => deleteFrom d place placeList) st =
        (.ok (), st') ∧ Deleted d l places st.store st'.store := by
  induction places generalizing st with
  | nil => exact ⟨st, rfl, .nil d l _⟩
  | cons place places ih =>
    obtain ⟨id, hid⟩ := Option.ne_none_iff_exists'.mp (hids place List.mem_cons_self)
    obtain ⟨st₁, h₁, hstore⟩ := eval_deleteFrom d hid hl st
    obtain ⟨st₂, h₂, hrest⟩ := ih (fun p hp => hids p (List.mem_cons_of_mem _ hp)) st₁
    rw [hstore] at hrest
    exact ⟨st₂, eval_forM_cons h₁ h₂, hrest.cons hid⟩

theorem eval_markPlaceVisited_forM (hl : placeList.placeListId = some l)
    {places : List Place} (hids : ∀ place ∈ places, place.placeId ≠ none) (st : AppState) :
    ∃ st', Prog.eval (serve {})
          (places.forM fun place => PlaceListRepository.markPlaceVisited place placeList) st =
        (.ok (), st') ∧ MarkedVisited l places st.store st'.store := by
  induction places generalizing st with
  | nil => exact ⟨st, rfl, .nil l _⟩
  | cons place places ih =>
    obtain ⟨id, hid⟩ := Option.ne_none_iff_exists'.mp (hids place List.mem_cons_self)
    obtain ⟨st₁, h₁, hstore⟩ := eval_movePlace .places .visitedPlaces hid hl st
    obtain ⟨st₂, h₂, hrest⟩ := ih (fun p hp => hids p (List.mem_cons_of_mem _ hp)) st₁
    rw [hstore] at hrest
    exact ⟨st₂, eval_forM_cons h₁ h₂, hrest.cons hid⟩

end Loops

/-! ## The totals -/

section Totals

variable {l : String} {places : List Place} {s s' : Store Path}

/-- The selected places leave `places`. -/
theorem MarkedVisited.placeIds_places (h : MarkedVisited l places s s') :
    placeIds s' false l = placeIds s false l \ selectedIds places := by
  ext id
  rw [Finset.mem_sdiff, mem_placeIds, mem_placeIds]
  by_cases hid : id ∈ selectedIds places
  · simp [hid, slot, h.gone id hid]
  · have hother : ∀ x ∈ selectedIds places,
        Path.places l id ≠ .places l x ∧ Path.places l id ≠ .visitedPlaces l x := by
      intro x hx
      refine ⟨fun he => ?_, Path.noConfusion⟩
      cases he
      exact hid hx
    simp [hid, slot, h.others _ hother]

/-- The selected places are in `visited_places`. -/
theorem MarkedVisited.placeIds_visited (h : MarkedVisited l places s s') :
    placeIds s' true l = placeIds s true l ∪ selectedIds places := by
  ext id
  rw [Finset.mem_union, mem_placeIds, mem_placeIds]
  by_cases hid : id ∈ selectedIds places
  · obtain ⟨place, hlast⟩ := Option.isSome_iff_exists.mp (lastSelected_isSome.mpr hid)
    simp [hid, slot, h.visited id place hlast]
  · have hother : ∀ x ∈ selectedIds places,
        Path.visitedPlaces l id ≠ .places l x ∧ Path.visitedPlaces l id ≠ .visitedPlaces l x := by
      intro x hx
      refine ⟨Path.noConfusion, fun he => ?_⟩
      cases he
      exact hid hx
    simp [hid, slot, h.others _ hother]

/-- Other lists keep their places. -/
theorem MarkedVisited.placeIds_other (h : MarkedVisited l places s s') (d : Bool) {m : String}
    (hm : m ≠ l) : placeIds s' d m = placeIds s d m := by
  ext id
  rw [mem_placeIds, mem_placeIds, h.others (slot d m id)]
  intro x _
  cases d <;> simp [slot, hm]

variable {placeListIds : List String}

/-- The total of saved places is lowered by the places that were saved. -/
theorem MarkedVisited.placesTotal_saved (h : MarkedVisited l places s s')
    (hone : placeListIds.count l = 1) :
    placesTotal s' false placeListIds + (selectedIds places ∩ placeIds s false l).card =
      placesTotal s false placeListIds := by
  have hcard : (placeIds s' false l).card + (selectedIds places ∩ placeIds s false l).card =
      (placeIds s false l).card := by
    rw [h.placeIds_places, Finset.inter_comm]
    exact Finset.card_sdiff_add_card_inter _ _
  have hsum := foldl_add_count (f := fun m => (placeIds s' false m).card)
    (g := fun m => (placeIds s false m).card) hcard
    (fun m hm => by rw [h.placeIds_other false hm]) placeListIds 0 0
  rw [hone, Nat.mul_one] at hsum
  exact hsum

/-- The total of visited places is raised by those that were not visited. -/
theorem MarkedVisited.placesTotal_visited (h : MarkedVisited l places s s')
    (hone : placeListIds.count l = 1) :
    placesTotal s' true placeListIds =
      placesTotal s true placeListIds + (selectedIds places \ placeIds s true l).card := by
  have hcard : (placeIds s true l).card + (selectedIds places \ placeIds s true l).card =
      (placeIds s' true l).card := by
    rw [h.placeIds_visited, ← Finset.union_sdiff_self_eq_union]
    exact (Finset.card_union_of_disjoint Finset.disjoint_sdiff).symm
  have hsum := foldl_add_count (f := fun m => (placeIds s true m).card)
    (g := fun m => (placeIds s' true m).card) hcard
    (fun m hm => by rw [h.placeIds_other true hm]) placeListIds 0 0
  rw [hone, Nat.mul_one] at hsum
  exact hsum.symm

end Totals

/-! ## The batches -/

/-- The batch of an event of `EditPlacesBloc`, run while nothing else happens
and nothing fails. -/
def runEdit (firebaseUser : AuthUser) (accountDeleted reportSent : Except Err Unit)
    (selectedPlaces : List Place) (state : EditPlacesState) (event : EditPlacesEdit)
    (st : AppState) : Except Err Unit × AppState :=
  Prog.eval (serve {}) (Handler.effect
    (RepositoryCall.task firebaseUser accountDeleted reportSent)
    (EditPlacesBloc.onEdit selectedPlaces event) state) st

section Batches

variable (firebaseUser : AuthUser) (accountDeleted reportSent : Except Err Unit)

/-- The handlers of the batches are their loops. -/
theorem effect_edit_forM (selectedPlaces : List Place) (placeList : PlaceList)
    (call : Place → RepositoryCall) (state : EditPlacesState) :
    Handler.effect (RepositoryCall.task firebaseUser accountDeleted reportSent)
        (EditPlacesBloc.edit selectedPlaces placeList
          (selectedPlaces.forM fun place => Handler.call (call place))) state =
      selectedPlaces.forM fun place =>
        (call place).task firebaseUser accountDeleted reportSent := by
  simp only [EditPlacesBloc.edit, Prog.bind_eq, Handler.effect_emit_bind,
    Handler.effect_forM_bind, Handler.effect_wait_bind, Handler.effect_emit]
  exact Prog.bind_ret _

end Batches

/-- A batch does what was selected: the selected places leave the
subcollection, or move to `visited_places` as they were last selected, and no
other document changes. A mark lowers the total of saved places by the number
of distinct places that were there, and raises the total of visited places by
the number that were not. -/
theorem batches_exact (firebaseUser : AuthUser) (accountDeleted reportSent : Except Err Unit)
    (state : EditPlacesState) (st : AppState) (placeList : PlaceList) (l : String)
    (selectedPlaces : List Place) (user : User) (placeListIds : List String)
    (hl : placeList.placeListId = some l)
    (hids : ∀ place ∈ selectedPlaces, place.placeId ≠ none)
    (huser : user.placeListIds = some placeListIds) (hone : placeListIds.count l = 1) :
    (∃ st', runEdit firebaseUser accountDeleted reportSent selectedPlaces state
          (.deletePlaces placeList) st = (.ok (), st') ∧
        Deleted false l selectedPlaces st.store st'.store) ∧
      (∃ st', runEdit firebaseUser accountDeleted reportSent selectedPlaces state
          (.deleteVisitedPlaces placeList) st = (.ok (), st') ∧
        Deleted true l selectedPlaces st.store st'.store) ∧
      ∃ st', runEdit firebaseUser accountDeleted reportSent selectedPlaces state
          (.markVisitedPlaces placeList) st = (.ok (), st') ∧
        MarkedVisited l selectedPlaces st.store st'.store ∧
        ∃ saved saved' visited visited' : Nat,
          (Prog.eval countServer (PlaceListRepository.getSavedPlacesTotalCount user)
            st.store).1 = .ok saved ∧
          (Prog.eval countServer (PlaceListRepository.getSavedPlacesTotalCount user)
            st'.store).1 = .ok saved' ∧
          (Prog.eval countServer (PlaceListRepository.getVisitedPlacesTotalCount user)
            st.store).1 = .ok visited ∧
          (Prog.eval countServer (PlaceListRepository.getVisitedPlacesTotalCount user)
            st'.store).1 = .ok visited' ∧
          saved' + (selectedIds selectedPlaces ∩ placeIds st.store false l).card = saved ∧
          visited' = visited + (selectedIds selectedPlaces \ placeIds st.store true l).card := by
  obtain ⟨st₁, hrun₁, hdel₁⟩ := eval_deleteFrom_forM false hl hids st
  obtain ⟨st₂, hrun₂, hdel₂⟩ := eval_deleteFrom_forM true hl hids st
  obtain ⟨st₃, hrun₃, hmark⟩ := eval_markPlaceVisited_forM hl hids st
  refine ⟨⟨st₁, ?_, hdel₁⟩, ⟨st₂, ?_, hdel₂⟩, st₃, ?_, hmark, ?_⟩
  · rw [runEdit, EditPlacesBloc.onEdit, EditPlacesBloc.onDeletePlaces, effect_edit_forM]
    exact hrun₁
  · rw [runEdit, EditPlacesBloc.onEdit, EditPlacesBloc.onDeleteVisitedPlaces, effect_edit_forM]
    exact hrun₂
  · rw [runEdit, EditPlacesBloc.onEdit, EditPlacesBloc.onMarkVisitedPlaces, effect_edit_forM]
    exact hrun₃
  · simp only [PlaceListRepository.getSavedPlacesTotalCount,
      PlaceListRepository.getVisitedPlacesTotalCount,
      PlaceListRepository.eval_totalCount huser]
    exact ⟨_, _, _, _, rfl, rfl, rfl, rfl, hmark.placesTotal_saved hone,
      hmark.placesTotal_visited hone⟩

/-- The Colosseum is selected twice, the second time under another name, and
marked visited: it is visited under that name. -/
theorem batches_exact_colosseum :
    ∃ st', runEdit { uid := "ada" } (.ok ()) (.ok ())
        [colosseum, { colosseum with name := some "Colosseo" }] .initial
        (.markVisitedPlaces rome) { store := onePlace colosseum "rome" "p1" } = (.ok (), st') ∧
      st'.store.get (.visitedPlaces "rome" "p1") =
        some (Doc.ofList { colosseum with name := some "Colosseo" : Place }.toDocument) := by
  obtain ⟨st', hrun, hmark, -⟩ := (batches_exact { uid := "ada" } (.ok ()) (.ok ()) .initial
    { store := onePlace colosseum "rome" "p1" } rome "rome"
    [colosseum, { colosseum with name := some "Colosseo" }]
    { placeListIds := some ["paris", "rome"] } ["paris", "rome"] rfl
    (by simp [colosseum]) rfl (by decide)).2.2
  exact ⟨st', hrun, hmark.visited _ _ rfl⟩

end GottaGo
