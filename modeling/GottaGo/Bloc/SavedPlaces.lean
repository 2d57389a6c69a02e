/-
GottaGo.Bloc.SavedPlaces — `SavedPlacesBloc`, the state machine
(`lib/bloc/saved_places/bloc/`).

One handler serves every event. Handlers run concurrently: each runs up
to its `Future.delayed`, and from there to its end when the delay is
over. All of them share the fields below, and so do the callbacks of the
listeners they open, which nothing ever cancels.

The lists `savedPlaces` and `contributors` are handed to the states by
reference: what a loaded state shows is what they hold now. The other
values of a loaded state carry, as `From`, the number of the load they
come from, counted from 0 over all loads; the bloc itself keeps no such
number.

A snapshot that cannot be read is an error of its stream, which no
listener handles, and a null check that fails ends the callback or the
handler it stands in.
-/
import GottaGo.Repository.Streams

namespace GottaGo

open GottaGo.Firestore GottaGo.Rx GottaGo.PlaceListRepository

/-- A value, and the number of the load it comes from. -/
structure From (α : Type) where
  load : Nat
  value : α

/-- `LoadPlaces` or `LoadVisitedPlaces` of a list that has an id. -/
structure Load where
  placeList : PlaceList
  placeListId : String
  hasId : placeList.placeListId = some placeListId
  visited : Bool

namespace Load

/-- The load of an event, unless `event.placeList.placeListId!` throws. -/
def of? (placeList : PlaceList) (visited : Bool) : Option Load :=
  match h : placeList.placeListId with
  | none => none
  | some id => some ⟨placeList, id, h, visited⟩

/-- The delay of the handler, in milliseconds. -/
def delay (l : Load) : Nat := if l.visited then 600 else 1000

/-- The stream the handler keeps as `placeStream`. -/
def placesList (l : Load) : PlacesStream := ⟨l.visited, l.placeListId⟩

theorem of?_eq_some {placeList : PlaceList} {visited : Bool} {l : Load} :
    of? placeList visited = some l ↔ l.placeList = placeList ∧ l.visited = visited := by
  unfold of?
  split
  · next h =>
    constructor
    · intro hl
      cases hl
    · intro hl
      have hid := l.hasId
      rw [hl.1, h] at hid
      cases hid
  · next id h =>
    obtain ⟨placeList', id', h', visited'⟩ := l
    simp only [Option.some.injEq, mk.injEq]
    constructor
    · intro hl
      exact ⟨hl.1.symm, hl.2.2.symm⟩
    · intro hl
      obtain ⟨rfl, rfl⟩ := hl
      rw [h] at h'
      cases h'
      exact ⟨rfl, rfl, rfl⟩

end Load

/-- The subclasses of `SavedPlacesState`. A loaded state also refers to
the lists of places and of contributors, an updated one to that of
places. -/
inductive SavedPlacesState where
  | initial
  | loading
  | loaded (placeList : From PlaceList) (listOwner : From User)
      (placeStream : From PlacesStream)
  | failed
  | updated

/-- The parts of a loaded state. -/
def SavedPlacesState.loaded? :
    SavedPlacesState → Option (From PlaceList × From User × From PlacesStream)
  | .loaded placeList listOwner placeStream => some (placeList, listOwner, placeStream)
  | _ => none

@[simp] theorem SavedPlacesState.loaded?_eq_some {state : SavedPlacesState}
    {x : From PlaceList × From User × From PlacesStream} :
    state.loaded? = some x ↔ state = .loaded x.1 x.2.1 x.2.2 := by
  cases state <;> simp [loaded?, Prod.ext_iff]

/-- The listeners that are open. That of the places keeps what
`getPlaces` is listening to. -/
inductive PlacesListener where
  | placeList (load : From Load)
  | listOwner (load : From Load)
  | places (load : From Load) (shown : Option (List String))
  | contributor (load : From Load) (userId : String)

/-- A handler waiting for the end of its delay. -/
inductive Delayed where
  | load (load : From Load)
  | addPlace (placeList : PlaceList)
  | removePlace (placeList : PlaceList)

structure Waiting where
  handler : Delayed
  due : Nat

/-- A snapshot of a document, of a subcollection (its documents, with
their ids) or of one of the documents of the subcollection. -/
inductive PlacesSnapshot where
  | doc (snap : Option Doc)
  | docs (docs : List (String × Doc))
  | place (placeId : String) (snap : Option Doc)
  deriving DecidableEq

structure SavedPlacesBloc where
  savedPlaces : List Place := []
  contributors : List User := []
  currentPlaceList : Option (From PlaceList) := none
  placeStream : Option (From PlacesStream) := none
  listOwner : Option (From User) := none
  state : SavedPlacesState := .initial
  loads : List Load := []
  listeners : List PlacesListener := []
  waiting : List Waiting := []
  now : Nat := 0

namespace SavedPlacesBloc

/-! ## Loads -/

/-- The handler of a load, up to its delay. -/
def open_ (l : Load) (bloc : SavedPlacesBloc) : SavedPlacesBloc :=
  let load : From Load := ⟨bloc.loads.length, l⟩
  { bloc with
    state := .loading
    savedPlaces := []
    contributors := []
    placeStream := some ⟨load.load, l.placesList⟩
    loads := bloc.loads ++ [l]
    listeners := bloc.listeners ++ [.placeList load, .listOwner load]
    waiting := bloc.waiting ++ [⟨.load load, bloc.now + l.delay⟩] }

/-- `LoadPlaces` and `LoadVisitedPlaces`, up to the delay. -/
def load (placeList : PlaceList) (visited : Bool) (bloc : SavedPlacesBloc) :
    SavedPlacesBloc :=
  match Load.of? placeList visited with
  | some l => bloc.open_ l
  | none => { bloc with state := .loading, savedPlaces := [], contributors := [] }

/-- The handler of a load, from the end of its delay. -/
def finishLoad (load : From Load) (bloc : SavedPlacesBloc) : SavedPlacesBloc :=
  match bloc.listOwner, bloc.placeStream with
  | some listOwner, some placeStream =>
    { bloc with
      state := .loaded ⟨load.load, load.value.placeList⟩ listOwner placeStream }
  | _, _ => bloc

/-! ## Callbacks -/

/-- The listener of `getPlaceList`. That of `LoadVisitedPlaces` does not
assign `_currentPlaceList`. -/
def onPlaceList (load : From Load) (snap : Option Doc) (bloc : SavedPlacesBloc) :
    SavedPlacesBloc :=
  match PlaceList.fromSnapshot load.value.placeListId snap with
  | .ok placeList =>
    { bloc with
      currentPlaceList :=
        if load.value.visited then bloc.currentPlaceList else some ⟨load.load, placeList⟩
      listeners := bloc.listeners ++ .places load none ::
        (placeList.contributorIds.getD []).map (.contributor load) }
  | .error _ => bloc

/-- The listener of `getListOwner`. -/
def onListOwner (load : From Load) (snap : Option Doc) (bloc : SavedPlacesBloc) :
    SavedPlacesBloc :=
  match User.fromSnapshot load.value.placeList.listOwnerId snap with
  | .ok user => { bloc with listOwner := some ⟨load.load, user⟩ }
  | .error _ => bloc

/-- The listener of `getUser`, for a contributor. -/
def onContributor (userId : String) (snap : Option Doc) (bloc : SavedPlacesBloc) :
    SavedPlacesBloc :=
  match User.fromSnapshot userId snap with
  | .ok user => { bloc with contributors := bloc.contributors ++ [user] }
  | .error _ => bloc

/-- The listener of `getPlaces` or `getVisitedPlaces`. -/
def onPlaces (i : Nat) (load : From Load) (shown : Option (List String)) (e : PlacesEvent)
    (bloc : SavedPlacesBloc) : SavedPlacesBloc :=
  { bloc with
    savedPlaces := bloc.savedPlaces ++ values (getPlaces.out shown e)
    listeners := bloc.listeners.set i (.places load (getPlaces.next shown e)) }

/-- Listener number `i` gets a snapshot. -/
def deliver (i : Nat) (snap : PlacesSnapshot) (bloc : SavedPlacesBloc) :
    Option SavedPlacesBloc :=
  match bloc.listeners[i]?, snap with
  | some (.placeList load), .doc d => some (bloc.onPlaceList load d)
  | some (.listOwner load), .doc d => some (bloc.onListOwner load d)
  | some (.contributor _ userId), .doc d => some (bloc.onContributor userId d)
  | some (.places load shown), .docs docs =>
    some (bloc.onPlaces i load shown (.inl (docs.map Prod.fst)))
  | some (.places load shown), .place placeId d =>
    some (bloc.onPlaces i load shown (.inr (placeId, d)))
  | _, _ => none

/-! ## Events -/

/-- What a handler finds at the end of its delay: `removed` is where in
`savedPlaces` the place of `RemovePlace` stands, and `snackbar` says
whether `snackbarKey` has a state. -/
structure Found where
  removed : Option Nat := none
  snackbar : Bool := true

/-- What happens to the bloc: the events added to it, `SavedListsUpdated`
of the other bloc, snapshots, time, and the end of a delay. -/
inductive Event where
  | load (placeList : PlaceList) (visited : Bool)
  | addPlace (placeList : PlaceList)
  | removePlace (placeList : PlaceList)
  | updatePlace
  | savedListsUpdated
  | deliver (i : Nat) (snap : PlacesSnapshot)
  | wait (ms : Nat)
  | finish (k : Nat) (found : Found)

/-- `AddPlace` and `RemovePlace`, up to the delay. -/
def delayEdit (handler : Delayed) (delay : Nat) (bloc : SavedPlacesBloc) :
    SavedPlacesBloc :=
  { bloc with
    state := .loading
    waiting := bloc.waiting ++ [⟨handler, bloc.now + delay⟩] }

/-- A handler, from the end of its delay. -/
def finish (handler : Delayed) (found : Found) (bloc : SavedPlacesBloc) :
    SavedPlacesBloc :=
  match handler with
  | .load load => bloc.finishLoad load
  | .addPlace placeList =>
    let updated := { bloc with state := .updated }
    -- `snackbarKey.currentState!` comes before the reload
    if found.snackbar then updated.load placeList false else updated
  | .removePlace placeList =>
    let removed := match found.removed with
      | some k => bloc.savedPlaces.eraseIdx k
      | none => bloc.savedPlaces
    let updated := { bloc with savedPlaces := removed, state := .updated }
    updated.load placeList false

/-- The clock stops at the end of every delay. -/
def step (bloc : SavedPlacesBloc) : Event → Option SavedPlacesBloc
  | .load placeList visited => some (bloc.load placeList visited)
  | .addPlace placeList => some (bloc.delayEdit (.addPlace placeList) 500)
  | .removePlace placeList => some (bloc.delayEdit (.removePlace placeList) 1000)
  | .updatePlace =>
    match bloc.state with
    | .loaded placeList _ _ => some (bloc.load placeList.value false)
    | _ => some bloc
  | .savedListsUpdated =>
    match bloc.currentPlaceList with
    | some placeList => some (bloc.load placeList.value false)
    | none => some bloc
  | .deliver i snap => bloc.deliver i snap
  | .wait ms =>
    if ∀ w ∈ bloc.waiting, bloc.now + ms ≤ w.due then
      some { bloc with now := bloc.now + ms }
    else none
  | .finish k found =>
    match bloc.waiting[k]? with
    | some w =>
      if w.due = bloc.now then
        some ({ bloc with waiting := bloc.waiting.eraseIdx k }.finish w.handler found)
      else none
    | none => none

end SavedPlacesBloc

end GottaGo
