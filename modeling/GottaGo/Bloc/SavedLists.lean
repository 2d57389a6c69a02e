/-
GottaGo.Bloc.SavedLists — `SavedListsBloc`, the state machine
(`lib/bloc/saved_categories/bloc/`).

Every handler runs up to its one await, and from there to its end if the
awaited call returns; if that call throws, the handler ends where it is.
`begin…` and `finish…` are the two halves. The repository calls that are
awaited are those of `Repository/PlaceLists.lean`.

`SavedListsState` is an abstract class with five nullable fields, and its
subclasses pass none of them on, but for the stream of a loaded state.
-/
import GottaGo.Repository.PlaceLists
import GottaGo.Repository.Streams

namespace GottaGo

open GottaGo.PlaceListRepository

/-- The subclasses of `SavedListsState`. -/
inductive SavedListsKind where
  | initial
  | loading
  | loaded
  | failed
  | updated
  deriving DecidableEq, Repr

structure SavedListsState where
  kind : SavedListsKind
  placeLists : Option (List PlaceList) := none
  placeListsStream : Option HomeStream := none
  placeList : Option PlaceList := none
  listOwner : Option User := none
  places : Option (List Place) := none

namespace SavedListsState

def loading : SavedListsState := { kind := .loading }

def loaded (placeListsStream : Option HomeStream) : SavedListsState :=
  { kind := .loaded, placeListsStream := placeListsStream }

def updated : SavedListsState := { kind := .updated }

end SavedListsState

/-- The events `SavedListsBloc` has a handler for. -/
inductive SavedListsHandler where
  | loadSavedLists
  | addList
  | updateSavedLists
  | removeList
  deriving DecidableEq, Repr

structure SavedListsBloc where
  placeListsStream : Option HomeStream := none
  myPlaceLists : List PlaceList := []
  sharedPlaceLists : List PlaceList := []
  allPlaceLists : List PlaceList := []
  state : SavedListsState := .loading

namespace SavedListsBloc

def emit (state : SavedListsState) (bloc : SavedListsBloc) : SavedListsBloc :=
  { bloc with state := state }

/-- `LoadSavedLists` up to its await. -/
def beginLoad (firebaseUser : AuthUser) (bloc : SavedListsBloc) : SavedListsBloc :=
  let cleared := { bloc with myPlaceLists := [], sharedPlaceLists := [] }
  let waiting := if cleared.state.kind = .loading then cleared else cleared.emit .loading
  { waiting with placeListsStream := some (getPlaceLists firebaseUser) }

/-- `LoadSavedLists` from the answer of `getMyPlaceListsFuture`. -/
def finishLoad (placeLists : Option (List PlaceList)) (bloc : SavedListsBloc) :
    SavedListsBloc :=
  let read := { bloc with myPlaceLists := placeLists.getD [] }
  let all := { read with allPlaceLists := read.myPlaceLists ++ read.sharedPlaceLists }
  all.emit (.loaded all.placeListsStream)

/-- `LoadSavedLists`, when `getMyPlaceListsFuture` ends so. -/
def onLoadSavedLists (firebaseUser : AuthUser)
    (answer : Except Firestore.Err (Option (List PlaceList))) (bloc : SavedListsBloc) :
    SavedListsBloc :=
  match answer with
  | .ok placeLists => (bloc.beginLoad firebaseUser).finishLoad placeLists
  | .error _ => bloc.beginLoad firebaseUser

/-- `AddList`, `UpdateSavedLists` and `RemoveList` up to their await. -/
def beginEdit (bloc : SavedListsBloc) : SavedListsBloc := bloc.emit .loading

/-- `UpdateSavedLists` from the answer of `updatePlaceLists`, up to
`add(LoadSavedLists())`. -/
def finishUpdate (bloc : SavedListsBloc) : SavedListsBloc := bloc.emit .updated

/-- A handler up to its await. -/
def begin (firebaseUser : AuthUser) (handler : SavedListsHandler) (bloc : SavedListsBloc) :
    SavedListsBloc :=
  if handler = .loadSavedLists then bloc.beginLoad firebaseUser else bloc.beginEdit

/-- No state of the bloc has a list. -/
def Listless (bloc : SavedListsBloc) : Prop := bloc.state.placeList = none

@[simp] theorem listless_emit_loading (bloc : SavedListsBloc) :
    (bloc.emit .loading).Listless := rfl

@[simp] theorem listless_finishUpdate (bloc : SavedListsBloc) :
    bloc.finishUpdate.Listless := rfl

@[simp] theorem listless_finishLoad (placeLists : Option (List PlaceList))
    (bloc : SavedListsBloc) : (bloc.finishLoad placeLists).Listless := rfl

theorem Listless.begin {bloc : SavedListsBloc} (h : bloc.Listless) (firebaseUser : AuthUser)
    (handler : SavedListsHandler) : (bloc.begin firebaseUser handler).Listless := by
  unfold SavedListsBloc.begin
  split
  · by_cases hk : bloc.state.kind = .loading
    · simpa [beginLoad, hk, Listless] using h
    · simp [beginLoad, hk, Listless, emit, SavedListsState.loading]
  · rfl

@[simp] theorem beginLoad_kind (firebaseUser : AuthUser) (bloc : SavedListsBloc) :
    (bloc.beginLoad firebaseUser).state.kind = .loading := by
  unfold beginLoad
  by_cases h : bloc.state.kind = .loading <;> simp [h, emit, SavedListsState.loading]

@[simp] theorem beginLoad_placeListsStream (firebaseUser : AuthUser)
    (bloc : SavedListsBloc) :
    (bloc.beginLoad firebaseUser).placeListsStream = some (getPlaceLists firebaseUser) := rfl

@[simp] theorem finishLoad_state (placeLists : Option (List PlaceList))
    (bloc : SavedListsBloc) :
    (bloc.finishLoad placeLists).state = .loaded bloc.placeListsStream := rfl

@[simp] theorem finishLoad_myPlaceLists (placeLists : Option (List PlaceList))
    (bloc : SavedListsBloc) :
    (bloc.finishLoad placeLists).myPlaceLists = placeLists.getD [] := rfl

end SavedListsBloc

end GottaGo
