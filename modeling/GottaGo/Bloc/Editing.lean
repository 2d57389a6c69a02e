/-
GottaGo.Bloc.Editing — the handlers of `SavedListsBloc`, `EditPlacesBloc` and
`SettingsBloc` that change what is stored, with the states they emit.

Every one of them emits its loading state, awaits repository calls one
after the other, and emits other states when the last of them has
returned. None has a handler for what a call throws. Each `on…` below is
the handler of the event of that name.

`RepositoryCall.task` is what a call does to the database; without the
states, a handler is then the program of `Bloc/Handlers.lean`.
-/
import GottaGo.Async.Bloc
import GottaGo.Bloc.Handlers
import GottaGo.Bloc.SavedLists

namespace GottaGo

open GottaGo.Async GottaGo.Firestore

structure BugReport where
  userId : String
  userName : String
  device : String
  dateTime : String
  report : String

/-- The repository calls of the handlers. -/
inductive RepositoryCall where
  | createPlaceList (placeList : PlaceList)
  | updatePlaceLists (placeList : PlaceList)
  | removePlaceList (placeList : PlaceList)
  | addPlaceToList (place : Place) (placeList : PlaceList)
  | removePlaceFromList (place : Place) (placeList : PlaceList)
  | removePlaceFromVisitedList (place : Place) (placeList : PlaceList)
  | markPlaceVisited (place : Place) (placeList : PlaceList)
  | restoreVisitedPlace (place : Place) (placeList : PlaceList)
  | updateUser (user : User)
  | registerUsername (userName userId : String)
  | deregisterUsername (userName : String)
  | deleteUser
  | deleteUserData (user : User)
  | sendBugReport (bugReport : BugReport)

/-- A handler that awaits them. -/
abbrev EditHandler (S α : Type) := Handler S RepositoryCall (fun _ => Unit) Err α

/-- `x!`. -/
def EditHandler.bang {S α : Type} : Option α → EditHandler S α
  | some a => .ret a
  | none => .raise .typeError

open Handler

/-! ## Lists (`saved_lists_bloc.dart`) -/

namespace SavedListsBloc

def onAddList (placeList : PlaceList) : EditHandler SavedListsState Unit := do
  Handler.emit .loading
  call (.createPlaceList placeList)

/-- The handler, up to the `LoadSavedLists` that it adds at its end. -/
def onUpdateSavedLists (placeList : PlaceList) : EditHandler SavedListsState Unit := do
  Handler.emit .loading
  call (.updatePlaceLists placeList)
  Handler.emit .updated

def onRemoveList (placeList : PlaceList) : EditHandler SavedListsState Unit := do
  Handler.emit .loading
  call (.removePlaceList placeList)

end SavedListsBloc

inductive SavedListsEdit where
  | addList (placeList : PlaceList)
  | updateSavedLists (placeList : PlaceList)
  | removeList (placeList : PlaceList)

def SavedListsBloc.onEdit : SavedListsEdit → EditHandler SavedListsState Unit
  | .addList placeList => onAddList placeList
  | .updateSavedLists placeList => onUpdateSavedLists placeList
  | .removeList placeList => onRemoveList placeList

/-! ## Places (`edit_places_bloc.dart`) -/

inductive EditPlacesState where
  | initial
  | started
  | submitted (places : List Place) (placeList : PlaceList)
  | loading
  | complete
  | failed (places : List Place) (placeList : PlaceList)
  | placeAdded (place : Place)
  | placeRemoved (place : Place)

namespace EditPlacesBloc

/-- What the handlers do around their calls. -/
def edit (selectedPlaces : List Place) (placeList : PlaceList)
    (body : EditHandler EditPlacesState Unit) : EditHandler EditPlacesState Unit := do
  emit .loading
  body
  emit (.submitted selectedPlaces placeList)
  wait
  emit .initial

def onDeletePlaces (selectedPlaces : List Place) (placeList : PlaceList) :
    EditHandler EditPlacesState Unit :=
  edit selectedPlaces placeList
    (selectedPlaces.forM fun place => call (.removePlaceFromList place placeList))

def onDeleteVisitedPlaces (selectedPlaces : List Place) (placeList : PlaceList) :
    EditHandler EditPlacesState Unit :=
  edit selectedPlaces placeList
    (selectedPlaces.forM fun place => call (.removePlaceFromVisitedList place placeList))

def onDeleteVisitedPlace (selectedPlaces : List Place) (place : Place)
    (placeList : PlaceList) : EditHandler EditPlacesState Unit :=
  edit selectedPlaces placeList (call (.removePlaceFromVisitedList place placeList))

def onMarkVisitedPlaces (selectedPlaces : List Place) (placeList : PlaceList) :
    EditHandler EditPlacesState Unit :=
  edit selectedPlaces placeList
    (selectedPlaces.forM fun place => call (.markPlaceVisited place placeList))

def onDeletePlace (selectedPlaces : List Place) (place : Place) (placeList : PlaceList) :
    EditHandler EditPlacesState Unit :=
  edit selectedPlaces placeList (call (.removePlaceFromList place placeList))

def onMarkVisitedPlace (selectedPlaces : List Place) (place : Place)
    (placeList : PlaceList) : EditHandler EditPlacesState Unit :=
  edit selectedPlaces placeList (call (.markPlaceVisited place placeList))

def onUnVisitPlace (selectedPlaces : List Place) (place : Place) (placeList : PlaceList) :
    EditHandler EditPlacesState Unit :=
  edit selectedPlaces placeList (call (.restoreVisitedPlace place placeList))

end EditPlacesBloc

inductive EditPlacesEdit where
  | deletePlaces (placeList : PlaceList)
  | deleteVisitedPlaces (placeList : PlaceList)
  | deleteVisitedPlace (place : Place) (placeList : PlaceList)
  | markVisitedPlaces (placeList : PlaceList)
  | deletePlace (place : Place) (placeList : PlaceList)
  | markVisitedPlace (place : Place) (placeList : PlaceList)
  | unVisitPlace (place : Place) (placeList : PlaceList)

namespace EditPlacesEdit

def placeList : EditPlacesEdit → PlaceList
  | .deletePlaces placeList | .deleteVisitedPlaces placeList
  | .deleteVisitedPlace _ placeList | .markVisitedPlaces placeList
  | .deletePlace _ placeList | .markVisitedPlace _ placeList
  | .unVisitPlace _ placeList => placeList

/-- The calls that the event leads to, while `selectedPlaces` are selected. -/
def calls (selectedPlaces : List Place) : EditPlacesEdit → List RepositoryCall
  | .deletePlaces placeList =>
    selectedPlaces.map fun place => .removePlaceFromList place placeList
  | .deleteVisitedPlaces placeList =>
    selectedPlaces.map fun place => .removePlaceFromVisitedList place placeList
  | .deleteVisitedPlace place placeList => [.removePlaceFromVisitedList place placeList]
  | .markVisitedPlaces placeList =>
    selectedPlaces.map fun place => .markPlaceVisited place placeList
  | .deletePlace place placeList => [.removePlaceFromList place placeList]
  | .markVisitedPlace place placeList => [.markPlaceVisited place placeList]
  | .unVisitPlace place placeList => [.restoreVisitedPlace place placeList]

end EditPlacesEdit

namespace EditPlacesBloc

def onEdit (selectedPlaces : List Place) : EditPlacesEdit → EditHandler EditPlacesState Unit
  | .deletePlaces placeList => onDeletePlaces selectedPlaces placeList
  | .deleteVisitedPlaces placeList => onDeleteVisitedPlaces selectedPlaces placeList
  | .deleteVisitedPlace place placeList => onDeleteVisitedPlace selectedPlaces place placeList
  | .markVisitedPlaces placeList => onMarkVisitedPlaces selectedPlaces placeList
  | .deletePlace place placeList => onDeletePlace selectedPlaces place placeList
  | .markVisitedPlace place placeList => onMarkVisitedPlace selectedPlaces place placeList
  | .unVisitPlace place placeList => onUnVisitPlace selectedPlaces place placeList

/-- A call for every place is the calls for all places. -/
theorem forM_call {S : Type} (f : Place → RepositoryCall) (places : List Place) :
    (places.forM fun place => (call (f place) : EditHandler S Unit)) =
      Handler.calls (places.map f) := by
  induction places with
  | nil => rfl
  | cons place places ih => rw [List.forM, ih, List.map_cons, Handler.calls, Prog.bind_eq]

theorem call_eq {S : Type} (c : RepositoryCall) :
    (call c : EditHandler S Unit) = Handler.calls [c] := (Prog.bind_ret _).symm

/-- Every handler makes the calls of its event, in order. -/
theorem onEdit_eq (selectedPlaces : List Place) (event : EditPlacesEdit) :
    onEdit selectedPlaces event = edit selectedPlaces event.placeList
      (Handler.calls (event.calls selectedPlaces)) := by
  cases event with
  | deletePlaces placeList =>
    exact congrArg (edit selectedPlaces placeList) (forM_call _ _)
  | deleteVisitedPlaces placeList =>
    exact congrArg (edit selectedPlaces placeList) (forM_call _ _)
  | deleteVisitedPlace place placeList =>
    exact congrArg (edit selectedPlaces placeList) (call_eq _)
  | markVisitedPlaces placeList =>
    exact congrArg (edit selectedPlaces placeList) (forM_call _ _)
  | deletePlace place placeList =>
    exact congrArg (edit selectedPlaces placeList) (call_eq _)
  | markVisitedPlace place placeList =>
    exact congrArg (edit selectedPlaces placeList) (call_eq _)
  | unVisitPlace place placeList =>
    exact congrArg (edit selectedPlaces placeList) (call_eq _)

end EditPlacesBloc

/-! ## Settings (`settings_bloc.dart`) -/

inductive SettingsState where
  | initial
  | updated
  | loading
  | loaded
  | failed
  deriving DecidableEq, Repr

inductive SettingsEdit where
  | updateName (user : User)
  | updateUsername (user : User) (userName : String)
  | deleteAccount (user : User)
  | reportIssue (bugReport : BugReport)

namespace SettingsBloc

/-- What three of the handlers do around their calls. -/
def update (body : EditHandler SettingsState Unit) : EditHandler SettingsState Unit := do
  emit .loading
  body
  emit .updated
  wait
  emit .loaded

def onUpdateName (user : User) : EditHandler SettingsState Unit :=
  update (call (.updateUser user))

def onUpdateUsername (user : User) (userName : String) : EditHandler SettingsState Unit :=
  update do
    let oldName ← EditHandler.bang user.userName
    call (.deregisterUsername oldName)
    let id ← EditHandler.bang user.id
    call (.registerUsername userName id)
    call (.updateUser (user.copyWith { userName := some userName }))

def onDeleteAccount (user : User) : EditHandler SettingsState Unit := do
  emit .loading
  call .deleteUser
  call (.deleteUserData user)
  emit .loaded

def onReportIssue (bugReport : BugReport) : EditHandler SettingsState Unit :=
  update (call (.sendBugReport bugReport))

def onEdit : SettingsEdit → EditHandler SettingsState Unit
  | .updateName user => onUpdateName user
  | .updateUsername user userName => onUpdateUsername user userName
  | .deleteAccount user => onDeleteAccount user
  | .reportIssue bugReport => onReportIssue bugReport

end SettingsBloc

namespace SettingsEdit

/-- A change of user name is for a user with a name and an id. -/
def Named : SettingsEdit → Prop
  | .updateUsername user _ => user.userName.isSome ∧ user.id.isSome
  | _ => True

/-- The calls that the event leads to. -/
def calls : SettingsEdit → List RepositoryCall
  | .updateName user => [.updateUser user]
  | .updateUsername user userName =>
    [.deregisterUsername (user.userName.getD ""), .registerUsername userName (user.id.getD ""),
      .updateUser (user.copyWith { userName := some userName })]
  | .deleteAccount user => [.deleteUser, .deleteUserData user]
  | .reportIssue bugReport => [.sendBugReport bugReport]

end SettingsEdit

namespace SettingsBloc

/-- What a handler does after its calls. -/
def afterCalls : SettingsEdit → EditHandler SettingsState Unit
  | .deleteAccount _ => emit .loaded
  | _ => do
    emit .updated
    wait
    emit .loaded

/-- Every handler of a named event makes the calls of its event, in order. -/
theorem onEdit_eq {event : SettingsEdit} (h : event.Named) :
    onEdit event = (emit .loading).bind fun _ =>
      (Handler.calls event.calls).bind fun _ => afterCalls event := by
  cases event with
  | updateName user =>
    simp only [SettingsEdit.calls, Handler.calls, Prog.bind_assoc]
    rfl
  | deleteAccount user =>
    simp only [SettingsEdit.calls, Handler.calls, Prog.bind_assoc]
    rfl
  | reportIssue bugReport =>
    simp only [SettingsEdit.calls, Handler.calls, Prog.bind_assoc]
    rfl
  | updateUsername user userName =>
    obtain ⟨oldName, hname⟩ := Option.isSome_iff_exists.mp h.1
    obtain ⟨id, hid⟩ := Option.isSome_iff_exists.mp h.2
    simp only [onEdit, onUpdateUsername, update, hname, hid, EditHandler.bang, Prog.bind_eq,
      Prog.bind_assoc, SettingsEdit.calls, Handler.calls]
    rfl

end SettingsBloc

/-! ## What the calls do to the database -/

/-- A call of `firebaseUser`, when `AuthRepository.deleteUser` and
`sendBugReport` end as given. -/
def RepositoryCall.task (firebaseUser : AuthUser) (accountDeleted reportSent : Except Err Unit) :
    RepositoryCall → App Unit
  | .createPlaceList placeList => PlaceListRepository.createPlaceList firebaseUser placeList
  | .updatePlaceLists placeList => PlaceListRepository.updatePlaceLists placeList
  | .removePlaceList placeList => PlaceListRepository.removePlaceList firebaseUser placeList
  | .addPlaceToList place placeList => PlaceListRepository.addPlaceToList place placeList
  | .removePlaceFromList place placeList =>
    PlaceListRepository.removePlaceFromList place placeList
  | .removePlaceFromVisitedList place placeList =>
    PlaceListRepository.removePlaceFromVisitedList place placeList
  | .markPlaceVisited place placeList => PlaceListRepository.markPlaceVisited place placeList
  | .restoreVisitedPlace place placeList =>
    PlaceListRepository.restoreVisitedPlace place placeList
  | .updateUser user => DatabaseRepository.updateUser user
  | .registerUsername userName userId => DatabaseRepository.registerUsername userName userId
  | .deregisterUsername userName => DatabaseRepository.deregisterUsername userName
  | .deleteUser => Prog.ofExcept accountDeleted
  | .deleteUserData user => DatabaseRepository.deleteUserData user
  | .sendBugReport _ => Prog.ofExcept reportSent

section Task

variable (firebaseUser : AuthUser) (accountDeleted reportSent : Except Err Unit)

theorem SavedListsBloc.effect_onEdit (event : SavedListsEdit) (s : SavedListsState) :
    effect (RepositoryCall.task firebaseUser accountDeleted reportSent) (onEdit event) s =
      match event with
      | .addList placeList => addList firebaseUser placeList
      | .updateSavedLists placeList => updateSavedLists placeList
      | .removeList placeList => removeList firebaseUser placeList := by
  cases event with
  | addList placeList =>
    simp [onEdit, onAddList, addList, RepositoryCall.task]
  | updateSavedLists placeList =>
    simp only [onEdit, onUpdateSavedLists, Prog.bind_eq, effect_emit_bind, effect_call_bind,
      effect_emit]
    exact Prog.bind_ret _
  | removeList placeList =>
    simp [onEdit, onRemoveList, removeList, RepositoryCall.task]

theorem EditPlacesBloc.effect_onMarkVisitedPlaces (selectedPlaces : List Place)
    (placeList : PlaceList) (s : EditPlacesState) :
    effect (RepositoryCall.task firebaseUser accountDeleted reportSent)
        (onMarkVisitedPlaces selectedPlaces placeList) s =
      markVisitedPlaces selectedPlaces placeList := by
  simp only [onMarkVisitedPlaces, edit, Prog.bind_eq, effect_emit_bind, effect_forM_bind,
    effect_wait_bind, effect_emit]
  exact Prog.bind_ret _

theorem SettingsBloc.effect_onUpdateName (user : User) (s : SettingsState) :
    effect (RepositoryCall.task firebaseUser accountDeleted reportSent) (onUpdateName user) s =
      updateName user := by
  simp only [onUpdateName, update, Prog.bind_eq, effect_emit_bind, effect_call_bind,
    effect_wait_bind, effect_emit]
  exact Prog.bind_ret _

theorem SettingsBloc.effect_onUpdateUsername (user : User) (userName : String)
    (s : SettingsState) :
    effect (RepositoryCall.task firebaseUser accountDeleted reportSent)
        (onUpdateUsername user userName) s =
      updateUsername user userName := by
  simp only [onUpdateUsername, update, updateUsername, Prog.bind_eq, effect_emit_bind,
    Prog.bind_assoc]
  rcases user.userName with _ | oldName
  · rfl
  rcases hid : user.id with _ | id
  · exact effect_call_bind _ _ _ _
  · simp only [EditHandler.bang, Fire.bang, Prog.bind, effect_call_bind, RepositoryCall.task]
    have hend : ∀ t : App Unit, (t.bind fun _ => .ret ()) = t := Prog.bind_ret
    exact congrArg (Prog.bind _) (funext fun _ => congrArg (Prog.bind _) (funext fun _ => hend _))

theorem SettingsBloc.effect_onDeleteAccount (user : User) (s : SettingsState) :
    effect (RepositoryCall.task firebaseUser accountDeleted reportSent)
        (onDeleteAccount user) s =
      deleteAccount accountDeleted user := by
  simp only [onDeleteAccount, deleteAccount, Prog.bind_eq, effect_emit_bind, effect_call_bind,
    effect_emit, RepositoryCall.task]
  exact congrArg (Prog.bind _) (funext fun _ => Prog.bind_ret _)

end Task

end GottaGo
