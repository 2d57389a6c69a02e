/-
GottaGo.Repository.Invites — `lib/repository/invite_repository.dart`, and
the callback by which `inviteContributorToList` sends.

An invite lives in the inbox of the invitee (`users/{uid}/invites/{id}`).
Accepting or declining it first puts a notice with the same id in the
inbox of the list's owner, and last deletes it from the invitee's.
Deleting it deletes both.
-/
import GottaGo.Repository.PlaceLists

namespace GottaGo

open GottaGo.Async GottaGo.Firestore

namespace InviteRepository

open Fire

def sendInvite (invite : Invite) : App Unit :=
  rethrowing do
    let id ← newDoc (.invites invite.invitedUserId)
    set (.invites invite.invitedUserId id) invite.toDocument

/-- What `addContributorToList` returns is not looked at. -/
def acceptInvite (invite : Invite) : App Unit :=
  rethrowing do
    let notice ← doc (.invites invite.listOwnerId) invite.inviteId
    set notice (invite.copyWith { inviteStatus := some "accepted" }).toDocument
    let _ ← PlaceListRepository.addContributorToList
      invite.placeListId invite.invitedUserId
    let ref ← doc (.invites invite.invitedUserId) invite.inviteId
    delete ref

def declineInvite (invite : Invite) : App Unit :=
  rethrowing do
    let notice ← doc (.invites invite.listOwnerId) invite.inviteId
    set notice (invite.copyWith { inviteStatus := some "declined" }).toDocument
    let ref ← doc (.invites invite.invitedUserId) invite.inviteId
    delete ref

def deleteInvite (invite : Invite) : App Unit :=
  rethrowing do
    let notice ← doc (.invites invite.listOwnerId) invite.inviteId
    delete notice
    let ref ← doc (.invites invite.invitedUserId) invite.inviteId
    delete ref

end InviteRepository

namespace Listener

open Fire

/-- The invite built from the invitee's document. -/
def invite (user : User) (firebaseUser : AuthUser) (placeList : PlaceList)
    (senderUsername : String) : App Invite := do
  let invitedUserId ← bang user.id
  let inviteeName ← match user.name with
    | some name => pure name
    | none => bang user.userName
  let placeListId ← bang placeList.placeListId
  return {
    invitedUserId := invitedUserId
    inviteeName := inviteeName
    listOwnerId := firebaseUser.uid
    inviterName := firebaseUser.displayName.getD senderUsername
    placeListId := placeListId
    placeListName := placeList.name
    inviteStatus := "sent" }

/-- What an open listener does with a snapshot. -/
def onSnapshot (l : Listener) (snap : Option Doc) : App Unit :=
  match l with
  | .inviteContributor userId firebaseUser placeList senderUsername => do
    let user ← Prog.ofExcept (User.fromSnapshot userId snap)
    let invite ← invite user firebaseUser placeList senderUsername
    InviteRepository.sendInvite invite

end Listener

end GottaGo
