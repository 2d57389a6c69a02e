/-
GottaGo.Accounts.Deletion — what the deletion of an account leaves behind.

`SettingsBloc` deletes the account and then one document, `users/{uid}`. The
app refers to a user from three more kinds of document: the invites below the
user's own, the directory of names, and the lists the user owns or
contributes to. `Erased` says that none of them is left and that the rest of
the database is as it was; `Untraced` says that there were none to begin
with, and `deleteAccount_erases_iff` that nothing less will do.

`Reachable` are the databases that the app can have left, by operations that
have all ended, overlapping or not.
-/
import GottaGo.Bloc.Editing
import GottaGo.Invites.LifeCycle
import GottaGo.Usernames.Directory
import GottaGo.Visits.Moves

namespace GottaGo

open GottaGo.Async GottaGo.Async.Pool GottaGo.Firestore

/-! ## References to a user -/

/-- List `l` names user `u`, as its owner or as a contributor. -/
def NamesUser (s : Store Path) (l u : String) : Prop :=
  s.field (.placeLists l) "listOwnerId" = some (.str u) ∨
    .str u ∈ s.elemsAt (.placeLists l) "contributorIds"

/-- List `l` is owned by user `u`. -/
def OwnedBy (s : Store Path) (l u : String) : Prop :=
  s.field (.placeLists l) "listOwnerId" = some (.str u)

instance (s : Store Path) (l u : String) : Decidable (OwnedBy s l u) :=
  inferInstanceAs (Decidable (_ = _))

/-- Database `s'` has no trace of `u`, and is otherwise `s`. -/
structure Erased (u : String) (s s' : Store Path) : Prop where
  user : s'.get (.users u) = none
  invites : ∀ id, s'.get (.invites u id) = none
  names : ∀ n, ¬ Registered s' n u
  lists : ∀ l, ¬ NamesUser s' l u
  otherUsers : ∀ v, v ≠ u → s'.get (.users v) = s.get (.users v) ∧
    ∀ id, s'.get (.invites v id) = s.get (.invites v id)
  otherNames : ∀ n v, v ≠ u → Registered s n v → s'.get (.usernames n) = s.get (.usernames n)
  /-- But for the contributor who is gone. -/
  otherLists : ∀ l v, v ≠ u → OwnedBy s l v →
    (∀ f, f ≠ "contributorIds" → s'.field (.placeLists l) f = s.field (.placeLists l) f) ∧
      s'.elemsAt (.placeLists l) "contributorIds" =
        (s.elemsAt (.placeLists l) "contributorIds").filter (fun c => c ≠ .str u) ∧
      ∀ d id, s'.get (slot d l id) = s.get (slot d l id)
  /-- The names of `u` can be claimed again. -/
  claimable : ∀ n, Registered s n u →
    (Prog.eval (serve {}) (DatabaseRepository.checkUsernameAvailability n)
      ({ store := s' } : AppState)).1 = .ok true
  /-- Whoever reads a list finds the users it names. -/
  readers : ∀ l v, NamesUser s' l v → s'.get (.users v) ≠ none

/-- Nothing but the document of `u` refers to `u`, and every user that a list
names is there. -/
structure Untraced (u : String) (s : Store Path) : Prop where
  invites : ∀ id, s.get (.invites u id) = none
  names : ∀ n, ¬ Registered s n u
  lists : ∀ l, ¬ NamesUser s l u
  readers : ∀ l v, NamesUser s l v → s.get (.users v) ≠ none

section Deletion

variable {s : Store Path} {u : String}

theorem field_del_user (p : Path) (f : String) (hp : p ≠ .users u) :
    (s.del (.users u)).field p f = s.field p f :=
  Store.field_congr (s.get_del_of_ne hp) f

theorem registered_del_user (n v : String) :
    Registered (s.del (.users u)) n v ↔ Registered s n v := by
  rw [Registered, Registered, field_del_user _ _ Path.noConfusion]

theorem namesUser_del_user (l v : String) :
    NamesUser (s.del (.users u)) l v ↔ NamesUser s l v := by
  rw [NamesUser, NamesUser, Store.elemsAt, Store.elemsAt,
    field_del_user _ _ Path.noConfusion, field_del_user _ _ Path.noConfusion]

/-- Deleting the user's document erases a user that nothing else refers to. -/
theorem Untraced.erased (h : Untraced u s) : Erased u s (s.del (.users u)) where
  user := s.get_del_self _
  invites := fun id => by rw [Store.get_del_of_ne _ Path.noConfusion, h.invites]
  names := fun n => by rw [registered_del_user]; exact h.names n
  lists := fun l => by rw [namesUser_del_user]; exact h.lists l
  otherUsers := by
    intro v hv
    refine ⟨s.get_del_of_ne (by simpa using hv), fun id => s.get_del_of_ne Path.noConfusion⟩
  otherNames := fun n _ _ _ => s.get_del_of_ne Path.noConfusion
  otherLists := by
    intro l v _ _
    refine ⟨fun f _ => field_del_user _ _ Path.noConfusion, ?_, fun d id => ?_⟩
    · have hnot : .str u ∉ s.elemsAt (.placeLists l) "contributorIds" :=
        fun hmem => h.lists l (.inr hmem)
      rw [Store.elemsAt_congr (s.get_del_of_ne Path.noConfusion), eq_comm,
        List.filter_eq_self]
      intro c hc
      exact decide_eq_true fun he => hnot (he ▸ hc)
    · cases d <;> exact s.get_del_of_ne Path.noConfusion
  claimable := fun n hn => absurd hn (h.names n)
  readers := by
    intro l v hv
    rw [namesUser_del_user] at hv
    have hne : v ≠ u := fun he => h.lists l (he ▸ hv)
    rw [Store.get_del_of_ne _ (by simpa using hne)]
    exact h.readers l v hv

/-- A user who is erased by it was referred to by nothing else. -/
theorem Erased.untraced (h : Erased u s (s.del (.users u))) : Untraced u s where
  invites := fun id => (s.get_del_of_ne Path.noConfusion).symm.trans (h.invites id)
  names := fun n hn => h.names n ((registered_del_user n u).mpr hn)
  lists := fun l hl => h.lists l ((namesUser_del_user l u).mpr hl)
  readers := by
    intro l v hv
    have hne : v ≠ u := fun he => h.lists l ((namesUser_del_user l u).mpr (he ▸ hv))
    have hread := h.readers l v ((namesUser_del_user l v).mpr hv)
    rwa [Store.get_del_of_ne _ (by simpa using hne)] at hread

end Deletion

/-! ## The event -/

/-- `DeleteAccount`, handled while nothing else happens and nothing fails. -/
def runDeleteAccount (firebaseUser : AuthUser) (state : SettingsState) (user : User)
    (st : AppState) : Except Err Unit × AppState :=
  Prog.eval (serve {}) (Handler.effect (RepositoryCall.task firebaseUser (.ok ()) (.ok ()))
    (SettingsBloc.onDeleteAccount user) state) st

/-- One document is deleted. -/
theorem runDeleteAccount_store (firebaseUser : AuthUser) (state : SettingsState) (user : User)
    {u : String} (hid : user.id = some u) (st : AppState) :
    ∃ st', runDeleteAccount firebaseUser state user st = (.ok (), st') ∧
      st'.store = st.store.del (.users u) := by
  rw [runDeleteAccount, SettingsBloc.effect_onDeleteAccount, SettingsBloc.deleteAccount,
    DatabaseRepository.deleteUserData, hid]
  exact ⟨_, eval_rethrowing_eq_ok.mpr rfl, rfl⟩

/-- The deletion of an account leaves no trace of the user just when there
was none outside the user's own document. -/
theorem deleteAccount_erases_iff (firebaseUser : AuthUser) (state : SettingsState)
    (user : User) (u : String) (st : AppState) (hid : user.id = some u) :
    ∃ st', runDeleteAccount firebaseUser state user st = (.ok (), st') ∧
      (Erased u st.store st'.store ↔ Untraced u st.store) := by
  obtain ⟨st', hrun, hstore⟩ := runDeleteAccount_store firebaseUser state user hid st
  refine ⟨st', hrun, ?_⟩
  rw [hstore]
  exact ⟨Erased.untraced, Untraced.erased⟩

/-- Ada has signed up and done nothing else. Bob has a name and a list. -/
def newcomerDb : Store Path :=
  .ofList [(.users "ada", Doc.ofList (signUpUser "ada" "Ada" none).toDocument),
    (.users "bob", Doc.ofList (signUpUser "bob" "Bob" none).toDocument),
    (.usernames "bob", Doc.ofList [("userId", .str "bob")]),
    (.placeLists "rome", Doc.ofList [("listOwnerId", .str "bob"), ("contributorIds", .strs [])])]

theorem namesUser_newcomerDb {l u : String} :
    NamesUser newcomerDb l u ↔ l = "rome" ∧ u = "bob" := by
  by_cases hrome : l = "rome" <;>
    simp [NamesUser, newcomerDb, Store.elemsAt, Store.field, Store.get_ofList_cons, hrome,
      Value.strs, List.lookup_cons, eq_comm]

theorem untraced_newcomerDb : Untraced "ada" newcomerDb where
  invites id := by simp [newcomerDb, Store.get_ofList_cons]
  names n := by
    by_cases hbob : n = "bob" <;>
      simp [Registered, newcomerDb, Store.field, Store.get_ofList_cons, hbob]
  lists l := by simp [namesUser_newcomerDb]
  readers l v hv := by
    obtain ⟨-, rfl⟩ := namesUser_newcomerDb.mp hv
    decide

theorem deleteAccount_erases_newcomer :
    ∃ st', runDeleteAccount { uid := "ada" } .initial (signUpUser "ada" "Ada" none)
        { store := newcomerDb } = (.ok (), st') ∧
      Erased "ada" newcomerDb st'.store := by
  obtain ⟨st', hrun, hiff⟩ := deleteAccount_erases_iff { uid := "ada" } .initial
    (signUpUser "ada" "Ada" none) "ada" { store := newcomerDb } rfl
  exact ⟨st', hrun, hiff.mpr untraced_newcomerDb⟩

/-! ## Databases that the app leaves -/

/-- The operations of the app that write to the database. -/
inductive AppOperation : App Unit → Prop
  | startOnboarding (uid name : String) (email : Option String) :
      AppOperation (OnboardingBloc.startOnboarding (signUpUser uid name email))
  | setUsername (uid name : String) (email : Option String) (userName : String) :
      AppOperation (setUsername (signUpUser uid name email) userName)
  | changeUsername (uid userName : String) : AppOperation (changeUsernameDialog uid userName)
  | changeName (uid name : String) : AppOperation (changeNameDialog uid name)
  | addList (firebaseUser : AuthUser) (name : String) :
      AppOperation (SavedListsBloc.addList firebaseUser (createListDialog firebaseUser.uid name))
  | editList (placeListId name : String) (icon : Option (List (String × Value))) :
      AppOperation (editListDialog placeListId name icon)
  | removeList (firebaseUser : AuthUser) (placeList : PlaceList) :
      AppOperation (SavedListsBloc.removeList firebaseUser placeList)
  | addPlaceToList (place : Place) (placeList : PlaceList) :
      AppOperation (PlaceListRepository.addPlaceToList place placeList)
  | editPlaces (firebaseUser : AuthUser) (selectedPlaces : List Place)
      (event : EditPlacesEdit) (state : EditPlacesState) :
      AppOperation (Handler.effect (RepositoryCall.task firebaseUser (.ok ()) (.ok ()))
        (EditPlacesBloc.onEdit selectedPlaces event) state)
  | sendInvite (invite : Invite) : AppOperation (InviteRepository.sendInvite invite)
  | answer (a : Answer) (invite : Invite) : AppOperation (a.call invite)
  | removeContributor (placeList : PlaceList) (userId : String) :
      AppOperation (PlaceListRepository.removeContributorFromList placeList userId)
  | deleteAccount (user : User) : AppOperation (SettingsBloc.deleteAccount (.ok ()) user)

/-- An operation may be started at any time. -/
def AppStart (st st' : AppState) (t : App Unit) : Prop := st' = st ∧ AppOperation t

/-- The databases that operations of the app leave when they have all ended. -/
def Reachable (st : AppState) : Prop :=
  ∃ c : Pool AppState (App Unit),
    Run AppStart (Prog.Step Served) ⟨{ store := ∅ }, []⟩ c ∧ c.Quiet ∧ c.state = st

/-- Ada signs up, picks a name and makes a list; then she deletes her
account. Her name is still taken, and the list still says it is hers. -/
theorem deleteAccount_leaves_traces :
    ¬ ∀ (st st' : AppState) (firebaseUser : AuthUser) (state : SettingsState) (user : User)
        (u : String), Reachable st → user.id = some u →
        runDeleteAccount firebaseUser state user st = (.ok (), st') →
        Erased u st.store st'.store := by
  intro h
  let ada := signUpUser "ada" "Ada" none
  have hplay : ∃ c : Pool AppState (App Unit),
      Run AppStart (Prog.Step Served) ⟨{ store := ∅ }, []⟩ c ∧
        c.Quiet ∧ Registered c.state.store "ada" "ada" ∧
          OwnedBy c.state.store "rome" "ada" := by
    refine Reach.exists_play
      [OnboardingBloc.startOnboarding ada, setUsername ada "ada",
        SavedListsBloc.addList { uid := "ada" } (createListDialog "ada" "Rome")]
      [(0, {}), (1, {}), (1, {}), (1, {}), (2, { draw := "rome" }), (2, {}), (2, {})]
      (fun _ => true) step_of_nextServed (fun _ _ => trivial) ?_ (fun _ _ => trivial)
      (by decide)
    intro t ht
    simp only [List.mem_cons, List.not_mem_nil, or_false] at ht
    rcases ht with rfl | rfl | rfl
    · exact ⟨rfl, .startOnboarding ..⟩
    · exact ⟨rfl, .setUsername ..⟩
    · exact ⟨rfl, .addList { uid := "ada" } "Rome"⟩
  obtain ⟨c, hrun, hq, hname, -⟩ := hplay
  obtain ⟨st', hdel, hstore⟩ := runDeleteAccount_store { uid := "ada" } .initial ada rfl c.state
  have herased := h c.state st' _ _ ada "ada" ⟨c, hrun, hq, rfl⟩ rfl hdel
  refine herased.names "ada" ?_
  rw [hstore, registered_del_user]
  exact hname

end GottaGo
