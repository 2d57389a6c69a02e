/-
GottaGo.Repository.Streams — the streams of the repositories
(`place_list_repository.dart`, `user_repository.dart`).

A stream is a machine over the snapshots it is driven by. A snapshot that
cannot be read makes `map` throw, which the stream passes on as an error.
`try { … } on FirebaseException` around a stream only catches what is
thrown while the stream is built.
-/
import GottaGo.Model.Documents
import GottaGo.Repository.Database
import GottaGo.Rx.Operators

namespace GottaGo

open GottaGo.Firestore GottaGo.Rx

namespace PlaceListRepository

/-- What drives `getPlaceLists`: the snapshots of the user's document, and
those of list documents, with their ids. -/
abbrev HomeEvent := Option Doc ⊕ (String × Option Doc)

/-- The inner streams of `getPlaceLists`, one for each of
`user.placeListIds!`. -/
def placeListStreams (uid : String) (snap : Option Doc) :
    Except Err (Latest String PlaceList) := do
  let user ← User.fromSnapshot uid snap
  match user.placeListIds with
  | some placeListIds => return Latest.opened placeListIds
  | none => throw .typeError

/-- The stream of lists that a page shows. -/
abbrev HomeStream :=
  Machine (Option (Latest String PlaceList)) HomeEvent (Except Err (List PlaceList))

/-- `firebaseUser` is `FirebaseAuth.instance.currentUser!`. -/
def getPlaceLists (firebaseUser : AuthUser) : HomeStream :=
  switchMap (placeListStreams firebaseUser.uid) (combineLatestList PlaceList.fromSnapshot)

theorem placeListStreams_eq_ok {uid : String} {snap : Option Doc}
    {l : Latest String PlaceList} :
    placeListStreams uid snap = .ok l ↔
      ∃ user ids, User.fromSnapshot uid snap = .ok user ∧
        user.placeListIds = some ids ∧ l = Latest.opened ids := by
  unfold placeListStreams
  cases hu : User.fromSnapshot uid snap with
  | error e => simp [bind, Except.bind]
  | ok user =>
    cases hi : user.placeListIds with
    | none => simp [bind, Except.bind, hi, throw, throwThe, MonadExceptOf.throw]
    | some ids => simp [bind, Except.bind, hi, pure, Except.pure, eq_comm]

/-- What drives `getPlaces` and `getVisitedPlaces`: the snapshots of the
subcollection, given by the ids of its documents, and those of the
documents, with their ids. -/
abbrev PlacesEvent := List String ⊕ (String × Option Doc)

/-- `getPlaces` and `getVisitedPlaces`: the documents of the subcollection,
each from a stream of its own, started anew with every snapshot of the
subcollection. -/
def getPlaces : Machine (Option (List String)) PlacesEvent (Except Err Place) :=
  switchMap .ok (mergeStream Place.fromSnapshot)

/-- `getPlacesList`, or `getVisitedPlacesList`, of a list. -/
structure PlacesStream where
  visited : Bool
  placeListId : String

end PlaceListRepository

end GottaGo
