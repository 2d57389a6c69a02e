/-
GottaGo.Membership.ProfileEdits — profile edits and the lists of a user.

A name change, a username change and a sign-up write every field of the
user's document, `placeListIds` included, from a value that was read
earlier or was made by the sign-up page. Creating, joining, leaving and
removing lists change `placeListIds` in place.

`profile_edits_replayed_iff`: in a run of any of these, the lists of a
user are the ones at the start with the membership writes so far, in
every state of the run, just when every profile write carries the lists
that are stored at that moment. Nothing in the code sees to that:
`profile_edit_loses_list` is a name change that was begun before a list
was created and written after.
-/
import GottaGo.Membership.Agreement
import GottaGo.Repository.Footprints

namespace GottaGo

open GottaGo.Async GottaGo.Async.Pool GottaGo.Firestore

/-- The calls that write to the documents of users. -/
inductive ProfileStart : AppState → AppState → App Unit → Prop
  | createPlaceList (st : AppState) (firebaseUser : AuthUser) (placeList : PlaceList) :
      ProfileStart st st (PlaceListRepository.createPlaceList firebaseUser placeList)
  | addContributorToList (st : AppState) (placeListId userId : String) :
      ProfileStart st st
        (PlaceListRepository.addContributorToList placeListId userId).void
  | removePlaceList (st : AppState) (firebaseUser : AuthUser) (placeList : PlaceList) :
      ProfileStart st st (PlaceListRepository.removePlaceList firebaseUser placeList)
  | removeContributorFromList (st : AppState) (placeList : PlaceList) (userId : String) :
      ProfileStart st st (PlaceListRepository.removeContributorFromList placeList userId)
  | updateName (st : AppState) (uid name : String) :
      ProfileStart st st (changeNameDialog uid name)
  | updateUsername (st : AppState) (uid userName : String) :
      ProfileStart st st (changeUsernameDialog uid userName)
  | startOnboarding (st : AppState) (uid name : String) (email : Option String) :
      ProfileStart st st (OnboardingBloc.startOnboarding (signUpUser uid name email))

section Footprints

variable {rely : (q : Req Path Listener) → Except Err (Ans q) → Prop}
  {W : Write Path → Prop} {B : Listener → Prop}

theorem readProfile_footprint (uid : String) : FootprintIf rely W B (readProfile uid) :=
  (FootprintIf.get _).bind fun _ => Prog.respects_ofExcept _

theorem changeNameDialog_footprint {uid name : String}
    (h : ∀ uid fs, (fs.map Prod.fst).Nodup → W (.update (.users uid) (putAll fs))) :
    FootprintIf rely W B (changeNameDialog uid name) := by
  refine (readProfile_footprint uid).bind fun user => ?_
  exact DatabaseRepository.updateUser_footprint fun uid =>
    h uid _ (User.toDocument_nodup _)

theorem changeUsernameDialog_footprint {uid userName : String}
    (h : ∀ uid fs, (fs.map Prod.fst).Nodup → W (.update (.users uid) (putAll fs)))
    (hset : ∀ name d, W (.set (.usernames name) d))
    (hdelete : ∀ name, W (.delete (.usernames name))) :
    FootprintIf rely W B (changeUsernameDialog uid userName) := by
  refine (readProfile_footprint uid).bind fun user => ?_
  refine (DatabaseRepository.checkUsernameAvailability_footprint userName).bind fun available => ?_
  split
  · refine (FootprintIf.bang _).bind fun oldName => ?_
    refine (DatabaseRepository.deregisterUsername_footprint (hdelete _)).bind fun _ => ?_
    refine (FootprintIf.bang _).bind fun id => ?_
    refine (DatabaseRepository.registerUsername_footprint (hset _)).bind fun _ => ?_
    exact DatabaseRepository.updateUser_footprint fun uid =>
      h uid _ (User.toDocument_nodup _)
  · trivial

/-- None of the calls deletes a user, and their writes are plain. -/
theorem ProfileStart.footprint {st st' : AppState} {t : App Unit} (u : String)
    (h : ProfileStart st st' t) :
    st' = st ∧ FootprintIf rely (fun w => w.Plain ∧ w ≠ .delete (.users u)) B t := by
  have hfields : ∀ uid fs, (fs.map Prod.fst).Nodup →
      (Write.update (Path.users uid) (putAll fs)).Plain ∧
        Write.update (Path.users uid) (putAll fs) ≠ .delete (.users u) :=
    fun uid fs hnd => ⟨.fields _ _ hnd, by simp⟩
  cases h with
  | createPlaceList firebaseUser placeList =>
    exact ⟨rfl, PlaceListRepository.createPlaceList_footprint
      (fun id d => ⟨.set _ d, by simp⟩) fun uid vs => ⟨.arrayUnion _ _ vs, by simp⟩⟩
  | addContributorToList l v =>
    exact ⟨rfl, (PlaceListRepository.addContributorToList_footprint
      (fun vs => ⟨.arrayUnion _ _ vs, by simp⟩)
      fun uid vs => ⟨.arrayUnion _ _ vs, by simp⟩).void⟩
  | removePlaceList firebaseUser placeList =>
    exact ⟨rfl, PlaceListRepository.removePlaceList_footprint
      (fun uid vs => ⟨.arrayRemove _ _ vs, by simp⟩) fun id => ⟨.delete _, by simp⟩⟩
  | removeContributorFromList placeList v =>
    exact ⟨rfl, PlaceListRepository.removeContributorFromList_footprint
      (fun id vs => ⟨.arrayRemove _ _ vs, by simp⟩)
      fun uid vs => ⟨.arrayRemove _ _ vs, by simp⟩⟩
  | updateName uid name => exact ⟨rfl, changeNameDialog_footprint hfields⟩
  | updateUsername uid userName =>
    exact ⟨rfl, changeUsernameDialog_footprint hfields
      (fun name d => ⟨.set _ d, by simp⟩) fun name => ⟨.delete _, by simp⟩⟩
  | startOnboarding uid name email =>
    exact ⟨rfl, DatabaseRepository.createUser_footprint
      fun uid => ⟨.set _ _, by simp⟩⟩

end Footprints

/-- The lists of user `u` are those at the start with the membership
writes so far, in every state a run enters, just when every write of the
run that puts a value in `placeListIds` puts the one stored there. -/
theorem profile_edits_replayed_iff (s : Store Path) (u : String)
    (c : Pool AppState (App Unit)) :
    Reach (fun d => d.state.store.elemsAt (.users u) "placeListIds" =
          replay (.users u) "placeListIds" d.state.log
            (s.elemsAt (.users u) "placeListIds"))
        ProfileStart (Prog.Step Answered) ⟨{ store := s }, []⟩ c ↔
      Run ProfileStart (Prog.Step (Carrying (.users u) "placeListIds"))
        ⟨{ store := s }, []⟩ c := by
  have hrun : Reach (fun d => Replayed (.users u) "placeListIds"
          (s.elemsAt (.users u) "placeListIds") d.state ∧ True)
        ProfileStart (Prog.Step Answered) ⟨{ store := s }, []⟩ c ↔
      Run ProfileStart (Prog.Step (Carrying (.users u) "placeListIds"))
        ⟨{ store := s }, []⟩ c :=
    replayed_run_iff (fun _ _ => True) (fun _ => False) (fun _ _ _ ht => ht.footprint u)
      (fun _ hw => hw) (fun _ _ _ _ _ _ _ => ⟨trivial, trivial⟩) trivial
  simpa only [Replayed, and_true] using hrun

/-- `ada` opens the dialog to change the name, creates a list on another
device, and then confirms the change: the list is lost, though no write
fails. -/
theorem profile_edit_loses_list :
    ¬ ∀ (s : Store Path) (u : String) (c : Pool AppState (App Unit)),
      Run ProfileStart (Prog.Step Served) ⟨{ store := s }, []⟩ c →
      c.state.store.elemsAt (.users u) "placeListIds" =
        replay (.users u) "placeListIds" c.state.log
          (s.elemsAt (.users u) "placeListIds") := by
  intro h
  let s : Store Path := .ofList [(.users "ada", userDoc "ada" [])]
  have hplay : ∃ c : Pool AppState (App Unit),
      Run ProfileStart (Prog.Step Served) ⟨{ store := s }, []⟩ c ∧
        c.state.store.elemsAt (.users "ada") "placeListIds" ≠
          replay (.users "ada") "placeListIds" c.state.log
            (s.elemsAt (.users "ada") "placeListIds") := by
    refine Reach.exists_play
      [changeNameDialog "ada" "Ada L.",
        PlaceListRepository.createPlaceList { uid := "ada" }
          (createListDialog "ada" "Rome")]
      [(0, {}), (1, { draw := "rome" }), (1, {}), (1, {}), (0, {})]
      (fun _ => true) step_of_nextServed (fun _ _ => trivial) ?_ (fun _ _ => trivial)
      (by decide)
    intro t ht
    simp only [List.mem_cons, List.not_mem_nil, or_false] at ht
    rcases ht with rfl | rfl
    · exact .updateName _ _ _
    · exact .createPlaceList _ _ _
  obtain ⟨c, hrun, hne⟩ := hplay
  exact hne (h s "ada" c hrun)

end GottaGo
