/-
GottaGo.App.Sessions — everything that the users of the app can do to the
database.

A `Session` is one use of one page, dialog or card: it reads the value
the page works on (the profile, a list, an invite) and then makes the
calls that its buttons lead to. Between the read and the calls anything
may happen, as the page keeps the value it was opened with. The places
that are saved come from the Places service and from the lists shown, and
are arbitrary here.

A page works for the account whose data it shows, which is the user of
`ProfileBloc` or of `OnboardingBloc`, or the account whose lists or inbox
were loaded. The calls go out for whoever is signed in by then, if anybody is.
Nothing ties the two together: after a change of accounts the pages are still
those of the account before, and while `ProfileBloc` is loading its user is
`User.empty`, whose id is the empty string. So a session has a
`firebaseUser` and a `page`, and `AppRun sees` is any number of sessions at
the same time in which `sees a p` holds of the user `a` who is signed in and
the account `p` of the page. A page that somebody has used may still be used
when nobody is signed in any more. The requests of the sessions are served in
any order, and any of them may fail or be late. The listeners that
`inviteContributorToList` opens are handed their snapshots in any order.

A bug report is not a session: nothing reads the collection it goes to.
-/
import GottaGo.Bloc.Editing
import GottaGo.Invites.Dismissal
import GottaGo.Repository.ByName
import GottaGo.Session.Echo

namespace GottaGo

open GottaGo.Async GottaGo.Async.Pool GottaGo.Firestore

/-! ## What the pages work on -/

/-- The list that a page was opened with. -/
def readList (placeListId : String) : App PlaceList := do
  let snap ← Fire.get (.placeLists placeListId)
  Prog.ofExcept (PlaceList.fromSnapshot placeListId snap)

/-- The invite of a card. -/
def readInvite (uid inviteId : String) : App Invite := do
  let snap ← Fire.get (.invites uid inviteId)
  Prog.ofExcept (Invite.fromSnapshot inviteId snap)

/-- `UserRepository.updateUser`, which rethrows nothing. -/
def UserRepository.updateUser (user : User) : App Unit := do
  let ref ← Fire.doc .users user.id
  Fire.update ref (user.toDocument.map fun f => (f.1, .put f.2))

/-- A session of `ChangeUsernameDialog` in which the profile arrives while the name
is looked up. -/
def changeUsernameMeanwhile (uid userName : String) : App Unit := do
  let userNameAvailable ← DatabaseRepository.checkUsernameAvailability userName
  if userNameAvailable then do
    let user ← readProfile uid
    SettingsBloc.updateUsername user userName

/-- The calls of the buttons of a card. -/
def InviteCard.answers : InviteCard → List Answer
  | .declinedGroupInvite _ => [.declineInvite]
  | .acceptedGroupInvite _ => [.deleteInvite]
  | .collabInvite _ => [.acceptInvite, .declineInvite]

/-! ## Sessions -/

/-- What is done on a page. -/
inductive Use where
  /-- A sign-up button of `WelcomePage`. -/
  | signUp (name : String) (email : Option String)
  /-- The username button of `ProfileInfo`, on the user that signed up; `typed`
  is the name that an earlier press has put there. -/
  | pickUsername (name : String) (email typed : Option String) (userName : String)
  /-- The same, on a user that the listener of `OnboardingBloc` has shown. -/
  | pickUsernameShown (typed : Option String) (userName : String)
  /-- The picture of `ProfileInfo`, and the updates that its listener adds. -/
  | uploadPicture (putFile : Except Err Unit) (downloadUrl : Except Err String)
      (name : String) (email : Option String)
  | echo
  /-- The dialogs of `Settings`. -/
  | changeUsername (userName : String)
  | changeUsernameMeanwhile (userName : String)
  | changeName (name : String)
  | deleteAccount (accountDeleted : Except Err Unit)
  /-- `IncompleteProfileDialog`. -/
  | completeProfile (name userName : String)
  | resetPicture (putFile : Except Err Unit) (downloadUrl : Except Err String)
  /-- `CreateListDialog`, `EditListDialog`, the icon of `CategoryCard`,
  `DeleteListDialog` and `InviteDialog`. -/
  | createList (name : String)
  | editList (placeListId name : String) (icon : Option (List (String × Value)))
  | pickIcon (placeListId : String) (icon : List (String × Value))
  | deleteList (placeListId : String)
  | inviteTo (placeListId userName inviterUsername : String)
  /-- A button of a card of the inbox. -/
  | answerInvite (a : Answer) (inviteId : String)
  /-- The places of a list. -/
  | addPlace (place : Place) (placeList : PlaceList)
  | editPlaces (selectedPlaces : List Place) (event : EditPlacesEdit)
  /-- One write of `addPlaceToListByName`, below a list that its query found. -/
  | addPlaceByName (place : Place) (placeListId docId : String)

structure Session where
  /-- `FirebaseAuth.instance.currentUser`. -/
  firebaseUser : Option AuthUser
  /-- The id of the account whose data the page shows. -/
  page : String
  use : Use

namespace Session

/-- `a` is signed in, or nobody is. -/
def By (s : Session) (a : String) : Prop := ∀ u ∈ s.firebaseUser, u.uid = a

/-- What the session does to the database. A page of `User.empty` that reads a
profile comes to nothing: there is no document without an id. -/
def task (s : Session) : App Unit :=
  match s.use with
  | .signUp name email => OnboardingBloc.startOnboarding (signUpUser s.page name email)
  | .pickUsername name email typed userName =>
    setUsername ((signUpUser s.page name email).copyWith { userName := typed }) userName
  | .pickUsernameShown typed userName => do
    let user ← readProfile s.page
    setUsername (user.copyWith { userName := typed }) userName
  | .uploadPicture putFile downloadUrl name email =>
    (OnboardingBloc.updateUserProfilePicture putFile downloadUrl
      (signUpUser s.page name email)).void
  | .echo => do
    let user ← readProfile s.page
    OnboardingBloc.updateUser user
  | .changeUsername userName => changeUsernameDialog s.page userName
  | .changeUsernameMeanwhile userName => GottaGo.changeUsernameMeanwhile s.page userName
  | .changeName name => changeNameDialog s.page name
  | .deleteAccount accountDeleted => do
    let user ← readProfile s.page
    SettingsBloc.deleteAccount accountDeleted user
  | .completeProfile name userName => do
    let user ← readProfile s.page
    UserRepository.updateUser
      (user.copyWith { name := some name, userName := some userName })
  | .resetPicture putFile downloadUrl => do
    let user ← readProfile s.page
    StorageRepository.uploadImage putFile downloadUrl user
  | .createList name => do
    let firebaseUser ← Fire.bang s.firebaseUser
    SavedListsBloc.addList firebaseUser (createListDialog s.page name)
  | .editList placeListId name icon => editListDialog placeListId name icon
  | .pickIcon placeListId icon => do
    let placeList ← readList placeListId
    SavedListsBloc.updateSavedLists (placeList.copyWith { icon := some icon })
  | .deleteList placeListId => do
    let placeList ← readList placeListId
    let firebaseUser ← Fire.bang s.firebaseUser
    SavedListsBloc.removeList firebaseUser placeList
  | .inviteTo placeListId userName inviterUsername => do
    -- The dialog belongs to a list that the home page shows.
    let user ← readProfile s.page
    if placeListId ∈ user.placeListIds.getD [] then do
      let placeList ← readList placeListId
      let firebaseUser ← Fire.bang s.firebaseUser
      (InviteBloc.sendInvite firebaseUser placeList userName inviterUsername).void
  | .answerInvite a inviteId => do
    let invite ← readInvite s.page inviteId
    if a ∈ (InviteList.card invite).answers then a.call invite
  | .addPlace place placeList => PlaceListRepository.addPlaceToList place placeList
  | .editPlaces selectedPlaces event =>
    -- None of these calls looks at who is signed in.
    (event.calls selectedPlaces).forM (RepositoryCall.task { uid := s.page } (.ok ()) (.ok ()))
  | .addPlaceByName place placeListId docId =>
    Prog.await (Req.write (PlaceListRepository.placeWrite place placeListId docId))

end Session

/-! ## Runs -/

/-- A session starts, by somebody on a page of which `sees` holds, or the callback
of a listener starts that is handed a snapshot. -/
inductive AppStarts (sees : String → String → Prop) : AppState → AppState → App Unit → Prop
  | session (st : AppState) (s : Session) {a : String} :
      s.By a → sees a s.page → AppStarts sees st st s.task
  | snapshot (st : AppState) {pre post : List (Listener × Option Doc)} (l : Listener)
      (snap : Option Doc) :
      st.feed = pre ++ (l, snap) :: post →
      AppStarts sees st { st with feed := pre ++ post } (l.onSnapshot snap)

/-- Runs of the app in which whoever is signed in as `a` uses pages of accounts
`p` with `sees a p` only. -/
abbrev AppRun (sees : String → String → Prop) :
    Pool AppState (App Unit) → Pool AppState (App Unit) → Prop :=
  Run (AppStarts sees) (Prog.Step Answered)

/-! ## Runs that can be computed -/

/-- What may start: a session, or the callback for snapshot `j` of those that
are due. -/
inductive AppLaunch where
  | session (s : Session)
  | snapshot (j : Nat)

section Computed

variable (sees : String → String → Prop) [DecidableRel sees]

def launchApp : AppLaunch → AppState → Option (AppState × App Unit)
  | .session s, st =>
    -- An account that is signed out may have used its own page.
    if sees (s.firebaseUser.elim s.page AuthUser.uid) s.page then some (st, s.task) else none
  | .snapshot j, st =>
    st.feed[j]?.map fun x => ({ st with feed := st.feed.eraseIdx j }, x.1.onSnapshot x.2)

theorem starts_of_launchApp (i : AppLaunch) (st st' : AppState) (t : App Unit)
    (h : launchApp sees i st = some (st', t)) : AppStarts sees st st' t := by
  cases i with
  | session s =>
    simp only [launchApp, Option.ite_none_right_eq_some] at h
    obtain ⟨hsees, heq⟩ := h
    cases heq
    refine .session st s (fun u hu => ?_) hsees
    rw [Option.mem_def.mp hu]
    rfl
  | snapshot j =>
    obtain ⟨x, hx, heq⟩ := Option.map_eq_some_iff.mp h
    cases heq
    obtain ⟨hj, hget⟩ := List.getElem?_eq_some_iff.mp hx
    rw [List.eraseIdx_eq_take_drop_succ]
    refine .snapshot st x.1 x.2 ?_
    rw [← hget, Prod.mk.eta, ← List.drop_eq_getElem_cons hj, List.take_append_drop]

/-- A step of a call, with any outcome. -/
def nextAnswered (o : Outcome) (st : AppState) (t : App Unit) :
    Option (AppState × App Unit) :=
  Prog.next serve (fun _ _ _ => true) o st t

theorem step_of_nextAnswered (o : Outcome) (st : AppState) (t : App Unit) (st' : AppState)
    (t' : App Unit) (h : nextAnswered o st t = some (st', t')) :
    Prog.Step Answered st t st' t' :=
  Prog.step_of_next (fun o _ _ _ => ⟨o, rfl⟩) h

variable {sees} in
/-- What a schedule of sessions leads to, and is seen to satisfy, is satisfied
after a run of the app. -/
theorem AppRun.exists_playMoves {c : Pool AppState (App Unit)}
    (ms : List (Move AppLaunch Outcome)) {p : Pool AppState (App Unit) → Prop}
    [DecidablePred p] (h : (playMoves (launchApp sees) nextAnswered c ms).any (p ·) = true) :
    ∃ c', AppRun sees c c' ∧ p c' :=
  Reach.exists_playMoves ms (starts_of_launchApp sees) step_of_nextAnswered h

end Computed

end GottaGo
