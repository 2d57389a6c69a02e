/-
GottaGo.Repository.PlaceLists — `lib/repository/place_list_repository.dart`:
lists, their members, and the two places subcollections.

A list and its members refer to each other: `place_lists/{id}` names its
owner and contributors, `users/{uid}` names the lists of the user. Every
membership function below writes the two documents one after the other,
and nothing ties the two writes together.

`addContributorToList` and `removeContributorFromList` listen to the
user's document for half a second. The listener assigns `invitedUser`
when a snapshot comes that `User.fromSnapshot` can read; a snapshot it
cannot read is an error of the stream, which nobody handles, and leaves
the variable as it was.
-/
import GottaGo.Repository.Database

namespace GottaGo

open GottaGo.Async GottaGo.Firestore

namespace PlaceListRepository

open Fire

/-- The user a listener on `users/{userId}` has assigned by the end of
the wait. -/
def userArrived (userId : String) (snap : Option (Option Doc)) : Option User :=
  snap.bind fun d => (User.fromSnapshot userId d).toOption

/-- `firebaseUser` is `FirebaseAuth.instance.currentUser!`. -/
def createPlaceList (firebaseUser : AuthUser) (placeList : PlaceList) : App Unit :=
  rethrowing do
    let id ← newDoc .placeLists
    let fields ← Prog.ofExcept
      (placeList.copyWith { placeListId := some id }).toDocument
    set (.placeLists id) fields
    update (.users firebaseUser.uid) [("placeListIds", .arrayUnion [.str id])]

/-- A late snapshot and a failed write both end in `null`. -/
def addContributorToList (placeListId userId : String) : App (Option User) :=
  onFirebaseException
    (do
      let snap ← snapshot (.users userId)
      match userArrived userId snap with
      | some invitedUser => do
        update (.placeLists placeListId)
          [("contributorIds", .arrayUnion [.ofString? invitedUser.id])]
        let ref ← doc .users invitedUser.id
        update ref [("placeListIds", .arrayUnion [.str placeListId])]
        return some invitedUser
      | none => return none)
    (return none)

def removeContributorFromList (placeList : PlaceList) (userId : String) : App Unit :=
  rethrowing do
    let snap ← snapshot (.users userId)
    match userArrived userId snap with
    | some _ => do
      let ref ← doc .placeLists placeList.placeListId
      update ref [("contributorIds", .arrayRemove [.str userId])]
      update (.users userId)
        [("placeListIds", .arrayRemove [.ofString? placeList.placeListId])]
    | none => return ()

/-- The answer only says whether the name is in the directory; the invite
is sent by the listener's callback (`Listener.onSnapshot`). -/
def inviteContributorToList (firebaseUser : AuthUser) (placeList : PlaceList)
    (userName senderUsername : String) : App (Option Bool) :=
  onFirebaseException
    (do
      let userId ← DatabaseRepository.checkUsernameExists userName
      match userId with
      | none => return some false
      | some userId => do
        listen (.users userId)
          (.inviteContributor userId firebaseUser placeList senderUsername)
        return some true)
    (return none)

def updatePlaceLists (placeList : PlaceList) : App Unit :=
  rethrowing do
    let ref ← doc .placeLists placeList.placeListId
    let fields ← Prog.ofExcept placeList.toDocument
    update ref (fields.map fun f => (f.1, .put f.2))

def removePlaceList (firebaseUser : AuthUser) (placeList : PlaceList) : App Unit :=
  rethrowing do
    -- Remove the place list id from the user's place list ids
    update (.users firebaseUser.uid)
      [("placeListIds", .arrayRemove [.ofString? placeList.placeListId])]
    -- Delete the place list if the user is the owner of the place list
    if placeList.listOwnerId = firebaseUser.uid then do
      let ref ← doc .placeLists placeList.placeListId
      delete ref

/-- `null` for a user without lists. The loop reads one list after the
other; what `PlaceList.fromSnapshot` throws is no `FirebaseException`. -/
def getMyPlaceListsFuture (user : User) : App (Option (List PlaceList)) :=
  rethrowing do
    match user.placeListIds with
    | none => return none
    | some placeListIds =>
      if placeListIds = [] then return none
      else do
        let placeLists ← readLists placeListIds
        return some placeLists
where
  /-- The loop over the ids. -/
  readLists : List String → App (List PlaceList)
    | [] => return []
    | placeListId :: placeListIds => do
      let snap ← get (.placeLists placeListId)
      let placeList ← Prog.ofExcept (PlaceList.fromSnapshot placeListId snap)
      let placeLists ← readLists placeListIds
      return placeList :: placeLists

/-- `from.doc(place.placeId).delete()` then
`to.doc(place.placeId).set(place.toDocument())`, below one list. -/
def movePlace (src dst : String → String → Path) (place : Place)
    (placeList : PlaceList) : App Unit :=
  rethrowing do
    let srcList ← listId placeList
    let srcRef ← doc (src srcList) place.placeId
    delete srcRef
    let dstList ← listId placeList
    let dstRef ← doc (dst dstList) place.placeId
    set dstRef place.toDocument
where
  /-- The id of `collection('place_lists').doc(placeList.placeListId)`. -/
  listId (placeList : PlaceList) : App String :=
    match placeList.placeListId with
    | some id => pure id
    | none => newDoc .placeLists

def markPlaceVisited (place : Place) (placeList : PlaceList) : App Unit :=
  movePlace .places .visitedPlaces place placeList

def restoreVisitedPlace (place : Place) (placeList : PlaceList) : App Unit :=
  movePlace .visitedPlaces .places place placeList

/-- `collection('place_lists').doc(placeList.placeListId).collection(…)
.doc(place.placeId)`. -/
def placeRef (coll : String → String → Path) (place : Place) (placeList : PlaceList) :
    App Path := do
  let listId ← movePlace.listId placeList
  doc (coll listId) place.placeId

def addPlaceToList (place : Place) (placeList : PlaceList) : App Unit :=
  rethrowing do
    let ref ← placeRef .places place placeList
    set ref place.toDocument

def removePlaceFromList (place : Place) (placeList : PlaceList) : App Unit :=
  rethrowing do
    let ref ← placeRef .places place placeList
    delete ref

def removePlaceFromVisitedList (place : Place) (placeList : PlaceList) : App Unit :=
  rethrowing do
    let ref ← placeRef .visitedPlaces place placeList
    delete ref

end PlaceListRepository

end GottaGo
