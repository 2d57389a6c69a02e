/-
GottaGo.Bloc.Handlers — the event handlers and dialog actions that drive
the repositories (`lib/bloc/`, `lib/view/`).

A handler is given by the repository calls it awaits, in order. The
states it emits around them drive widgets only and are not modelled here.

Dialogs and pages act on a value that was read earlier: the profile
(`ProfileBloc.state.user`) or the list a page was opened with. A session
below is such a read followed by the write that uses it, so that anything
may happen between the two.
-/
import GottaGo.Repository.Invites

namespace GottaGo

open GottaGo.Async GottaGo.Firestore

/-! ## Settings (`settings_bloc.dart`, `settings.dart`) -/

namespace SettingsBloc

def updateName (user : User) : App Unit := DatabaseRepository.updateUser user

def updateUsername (user : User) (userName : String) : App Unit := do
  let oldName ← Fire.bang user.userName
  DatabaseRepository.deregisterUsername oldName
  let id ← Fire.bang user.id
  DatabaseRepository.registerUsername userName id
  DatabaseRepository.updateUser (user.copyWith { userName := some userName })

/-- `accountDeleted` is the outcome of `AuthRepository.deleteUser`. -/
def deleteAccount (accountDeleted : Except Err Unit) (user : User) : App Unit := do
  Prog.ofExcept accountDeleted
  DatabaseRepository.deleteUserData user

end SettingsBloc

/-- The profile a dialog works on: a snapshot of the user's document. -/
def readProfile (uid : String) : App User := do
  let snap ← Fire.get (.users uid)
  Prog.ofExcept (User.fromSnapshot uid snap)

/-- The button of `ChangeUsernameDialog`, on the profile `user`. -/
def changeUsername (user : User) (userName : String) : App Unit := do
  let userNameAvailable ← DatabaseRepository.checkUsernameAvailability userName
  if userNameAvailable then SettingsBloc.updateUsername user userName

/-- A session of `ChangeUsernameDialog`. -/
def changeUsernameDialog (uid userName : String) : App Unit := do
  let user ← readProfile uid
  changeUsername user userName

/-- A session of `ChangeNameDialog`. -/
def changeNameDialog (uid name : String) : App Unit := do
  let user ← readProfile uid
  SettingsBloc.updateName (user.copyWith { name := some name })

/-! ## Onboarding (`onboarding_bloc.dart`, `welcome_page.dart`,
`profile_info.dart`) -/

namespace OnboardingBloc

def startOnboarding (user : User) : App Unit := DatabaseRepository.createUser user

def updateUser (user : User) : App Unit := do
  -- Set Username if passed check & not null.
  if user.userName ≠ some "" then do
    let userName ← Fire.bang user.userName
    let id ← Fire.bang user.id
    DatabaseRepository.registerUsername userName id
  DatabaseRepository.updateUser user

end OnboardingBloc

/-- The user that the sign-up buttons of `WelcomePage` build. -/
def signUpUser (uid name : String) (email : Option String) : User where
  id := some uid
  userName := some ""
  name := some name
  email := email
  profilePicture := some ""
  placeListIds := some []

/-- The username button of `ProfileInfo`, on the user being onboarded. -/
def setUsername (user : User) (userName : String) : App Unit := do
  let userNameAvailable ← DatabaseRepository.checkUsernameAvailability userName
  if userNameAvailable then
    OnboardingBloc.updateUser (user.copyWith { userName := some userName })

/-! ## Lists (`saved_lists_bloc.dart`, `create_list_dialog.dart`,
`dialogs.dart`) -/

namespace SavedListsBloc

def addList (firebaseUser : AuthUser) (placeList : PlaceList) : App Unit :=
  PlaceListRepository.createPlaceList firebaseUser placeList

def updateSavedLists (placeList : PlaceList) : App Unit :=
  PlaceListRepository.updatePlaceLists placeList

def removeList (firebaseUser : AuthUser) (placeList : PlaceList) : App Unit :=
  PlaceListRepository.removePlaceList firebaseUser placeList

end SavedListsBloc

/-- The list that `CreateListDialog` builds. -/
def createListDialog (userId name : String) : PlaceList where
  placeCount := 0
  icon := []
  contributorIds := some []
  listOwnerId := userId
  name := name

/-- A session of `EditListDialog` on list `placeListId`: the new name, and
the new icon if one was picked. -/
def editListDialog (placeListId name : String)
    (icon : Option (List (String × Value))) : App Unit := do
  let snap ← Fire.get (.placeLists placeListId)
  let placeList ← Prog.ofExcept (PlaceList.fromSnapshot placeListId snap)
  SavedListsBloc.updateSavedLists
    (placeList.copyWith { name := some name, icon := icon })

/-! ## Places (`edit_places_bloc.dart`) -/

namespace EditPlacesBloc

/-- `for (Place place in selectedPlaces) await markPlaceVisited(…)`. -/
def markVisitedPlaces (selectedPlaces : List Place) (placeList : PlaceList) : App Unit :=
  selectedPlaces.forM fun place =>
    PlaceListRepository.markPlaceVisited place placeList

end EditPlacesBloc

/-! ## Invites (`invite_bloc.dart`, `invite_inbox_bloc.dart`) -/

namespace InviteBloc

/-- Whether the bloc emits `sent` (and not `failed`). -/
def sendInvite (firebaseUser : AuthUser) (placeList : PlaceList)
    (userName inviterUsername : String) : App Bool := do
  let inviteSent ← PlaceListRepository.inviteContributorToList firebaseUser
    placeList userName inviterUsername
  return inviteSent = some true

end InviteBloc

end GottaGo
