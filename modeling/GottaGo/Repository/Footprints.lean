/-
GottaGo.Repository.Footprints — what each repository function may write.

One lemma for each function: the hypotheses are its writes, as patterns,
and the conclusion is that it issues no others and leaves no listener
open. The runs of the later modules are bounded by citing these and by
nothing else about the functions' text.
-/
import GottaGo.Bloc.Handlers
import GottaGo.Firestore.Footprint
import GottaGo.Firestore.Replay

namespace GottaGo

open GottaGo.Async GottaGo.Firestore

variable {rely : (q : Req Path Listener) → Except Err (Ans q) → Prop}
  {W : Write Path → Prop} {B : Listener → Prop}

theorem rethrowing_footprint {α : Type} {t : App α} (h : FootprintIf rely W B t) :
    FootprintIf rely W B (rethrowing t) :=
  h.onFirebaseException trivial

/-! ## Users and usernames -/

namespace DatabaseRepository

theorem createUser_footprint {user : User}
    (h : ∀ uid, W (.set (.users uid) (Doc.ofList user.toDocument))) :
    FootprintIf rely W B (createUser user) := by
  refine rethrowing_footprint ?_
  refine FootprintIf.doc_bind fun uid => ?_
  exact FootprintIf.set (h uid)

theorem updateUser_footprint {user : User}
    (h : ∀ uid, W (.update (.users uid) (putAll user.toDocument))) :
    FootprintIf rely W B (updateUser user) := by
  refine rethrowing_footprint ?_
  refine FootprintIf.doc_bind fun uid => ?_
  exact FootprintIf.update (h uid)

theorem checkUsernameAvailability_footprint (userName : String) :
    FootprintIf rely W B (checkUsernameAvailability userName) := by
  refine rethrowing_footprint ?_
  exact (FootprintIf.get _).bind fun _ => trivial

theorem registerUsername_footprint {userName userId : String}
    (h : ∀ d, W (.set (.usernames userName) d)) :
    FootprintIf rely W B (registerUsername userName userId) := by
  refine rethrowing_footprint ?_
  exact FootprintIf.set (h _)

theorem deregisterUsername_footprint {userName : String}
    (h : W (.delete (.usernames userName))) :
    FootprintIf rely W B (deregisterUsername userName) := by
  refine rethrowing_footprint ?_
  exact FootprintIf.delete h

end DatabaseRepository

/-! ## Lists -/

namespace PlaceListRepository

theorem createPlaceList_footprint {firebaseUser : AuthUser} {placeList : PlaceList}
    (hlist : ∀ id d, W (.set (.placeLists id) d))
    (huser : ∀ uid vs, W (.update (.users uid) [("placeListIds", .arrayUnion vs)])) :
    FootprintIf rely W B (createPlaceList firebaseUser placeList) := by
  refine rethrowing_footprint ?_
  refine (FootprintIf.newDoc _).bind fun id => ?_
  refine (Prog.respects_ofExcept _).bind fun fields => ?_
  refine (FootprintIf.set (hlist id _)).bind fun _ => ?_
  exact FootprintIf.update (huser _ _)

theorem addContributorToList_footprint {placeListId userId : String}
    (hlist : ∀ vs, W (.update (.placeLists placeListId)
      [("contributorIds", .arrayUnion vs)]))
    (huser : ∀ uid vs, W (.update (.users uid) [("placeListIds", .arrayUnion vs)])) :
    FootprintIf rely W B (addContributorToList placeListId userId) := by
  refine FootprintIf.onFirebaseException ?_ trivial
  refine (FootprintIf.snapshot _).bind fun snap => ?_
  split
  · next invitedUser _ =>
    refine (FootprintIf.update (hlist _)).bind fun _ => ?_
    refine FootprintIf.doc_bind fun uid => ?_
    exact (FootprintIf.update (huser uid _)).bind fun _ => trivial
  · trivial

theorem removeContributorFromList_footprint {placeList : PlaceList} {userId : String}
    (hlist : ∀ id vs, W (.update (.placeLists id) [("contributorIds", .arrayRemove vs)]))
    (huser : ∀ uid vs, W (.update (.users uid) [("placeListIds", .arrayRemove vs)])) :
    FootprintIf rely W B (removeContributorFromList placeList userId) := by
  refine rethrowing_footprint ?_
  refine (FootprintIf.snapshot _).bind fun snap => ?_
  split
  · refine FootprintIf.doc_bind fun id => ?_
    refine (FootprintIf.update (hlist id _)).bind fun _ => ?_
    exact FootprintIf.update (huser _ _)
  · trivial

theorem removePlaceList_footprint {firebaseUser : AuthUser} {placeList : PlaceList}
    (huser : ∀ uid vs, W (.update (.users uid) [("placeListIds", .arrayRemove vs)]))
    (hlist : ∀ id, W (.delete (.placeLists id))) :
    FootprintIf rely W B (removePlaceList firebaseUser placeList) := by
  refine rethrowing_footprint ?_
  refine (FootprintIf.update (huser _ _)).bind fun _ => ?_
  split
  · refine FootprintIf.doc_bind fun id => ?_
    exact FootprintIf.delete (hlist id)
  · trivial

/-- `updatePlaceLists` writes to the list the value names. -/
theorem updatePlaceLists_footprint {placeList : PlaceList} {id : String}
    (hid : placeList.placeListId = some id)
    (h : ∀ fields, placeList.toDocument = .ok fields →
      W (.update (.placeLists id) (putAll fields))) :
    FootprintIf rely W B (updatePlaceLists placeList) := by
  refine rethrowing_footprint ?_
  rw [hid]
  cases hdoc : placeList.toDocument with
  | error e => trivial
  | ok fields => exact FootprintIf.update (h fields hdoc)

end PlaceListRepository

/-! ## Invites -/

namespace InviteRepository

theorem acceptInvite_footprint {invite : Invite}
    (hnotice : ∀ uid id, W (.set (.invites uid id) (Doc.ofList
      (invite.copyWith { inviteStatus := some "accepted" }).toDocument)))
    (hlist : ∀ id vs, W (.update (.placeLists id) [("contributorIds", .arrayUnion vs)]))
    (huser : ∀ uid vs, W (.update (.users uid) [("placeListIds", .arrayUnion vs)]))
    (hdelete : ∀ uid id, W (.delete (.invites uid id))) :
    FootprintIf rely W B (acceptInvite invite) := by
  refine rethrowing_footprint ?_
  refine FootprintIf.doc_bind fun id => ?_
  refine (FootprintIf.set (hnotice _ id)).bind fun _ => ?_
  refine (PlaceListRepository.addContributorToList_footprint (hlist _) huser).bind fun _ => ?_
  refine FootprintIf.doc_bind fun id => ?_
  exact FootprintIf.delete (hdelete _ id)

theorem declineInvite_footprint {invite : Invite}
    (hnotice : ∀ uid id, W (.set (.invites uid id) (Doc.ofList
      (invite.copyWith { inviteStatus := some "declined" }).toDocument)))
    (hdelete : ∀ uid id, W (.delete (.invites uid id))) :
    FootprintIf rely W B (declineInvite invite) := by
  refine rethrowing_footprint ?_
  refine FootprintIf.doc_bind fun id => ?_
  refine (FootprintIf.set (hnotice _ id)).bind fun _ => ?_
  refine FootprintIf.doc_bind fun id => ?_
  exact FootprintIf.delete (hdelete _ id)

end InviteRepository

end GottaGo
