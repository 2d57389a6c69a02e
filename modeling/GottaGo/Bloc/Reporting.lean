/-
GottaGo.Bloc.Reporting — the handlers that report a success: `AddPlace` of
`SavedPlacesBloc`, the answers to an invite of `InviteInboxBloc`, and
`SendInvite` of `InviteBloc`, with what they show.

The first two start a repository call and do not await it. The third awaits
a call that answers whether the name was found and sends nothing itself.
`RestorePurchases` is in `Bloc/Purchases.lean`.
-/
import GottaGo.Async.Beside
import GottaGo.Bloc.Handlers
import GottaGo.Bloc.SavedPlaces

namespace GottaGo

open GottaGo.Async GottaGo.Firestore

/-- The repository calls of the handlers. -/
inductive ReportedCall where
  | addPlaceToList (place : Place) (placeList : PlaceList)
  | acceptInvite (invite : Invite)
  | declineInvite (invite : Invite)
  | deleteInvite (invite : Invite)
  | inviteContributorToList (placeList : PlaceList) (userName senderUsername : String)

namespace ReportedCall

/-- What they return. -/
abbrev Answer : ReportedCall → Type
  | .addPlaceToList _ _ => Unit
  | .acceptInvite _ => Unit
  | .declineInvite _ => Unit
  | .deleteInvite _ => Unit
  | .inviteContributorToList _ _ _ => Option Bool

/-- What they do, for the account `firebaseUser`. -/
def task (firebaseUser : AuthUser) : (c : ReportedCall) → App c.Answer
  | .addPlaceToList place placeList => PlaceListRepository.addPlaceToList place placeList
  | .acceptInvite invite => InviteRepository.acceptInvite invite
  | .declineInvite invite => InviteRepository.declineInvite invite
  | .deleteInvite invite => InviteRepository.deleteInvite invite
  | .inviteContributorToList placeList userName senderUsername =>
    PlaceListRepository.inviteContributorToList firebaseUser placeList userName senderUsername

end ReportedCall

/-- A handler that makes them. -/
abbrev ReportHandler (S α : Type) := Handler S ReportedCall ReportedCall.Answer Err α

open Handler

/-! ## Adding a place (`saved_places_bloc.dart`) -/

/-- What `SavedPlacesBloc` shows: a state, or a notice at the bottom of the
screen. -/
inductive PlacesDisplay where
  | state (state : SavedPlacesState)
  | snackBar (text : String)

/-- It tells that a place was added. -/
def PlacesDisplay.IsAdded : PlacesDisplay → Prop
  | .state .updated => True
  | .snackBar _ => True
  | _ => False

/-- `'${x}'` of a nullable string. -/
def interpolate (x : Option String) : String := x.getD "null"

/-- The handler, up to the `LoadPlaces` that it adds at its end. -/
def SavedPlacesBloc.onAddPlace (place : Place) (placeList : PlaceList) :
    ReportHandler PlacesDisplay Unit := do
  start (.addPlaceToList place placeList)
  emit (.state .loading)
  wait
  emit (.state .updated)
  emit (.snackBar (interpolate place.name ++ " added to " ++ placeList.name))

/-! ## Answering an invite (`invite_inbox_bloc.dart`) -/

inductive InviteInboxStatus where
  | loading
  | loaded
  | error
  | accepted
  | declined
  | deleted
  deriving DecidableEq, Repr

structure InviteInboxState where
  status : InviteInboxStatus
  invites : Option (List Invite) := none

/-- An invite is answered, or its notice is put away. -/
inductive InviteAnswer where
  | acceptInvite
  | declineInvite
  | deleteInvite
  deriving DecidableEq, Repr

namespace InviteAnswer

def call (invite : Invite) : InviteAnswer → ReportedCall
  | .acceptInvite => .acceptInvite invite
  | .declineInvite => .declineInvite invite
  | .deleteInvite => .deleteInvite invite

/-- The status that reports it. -/
def status : InviteAnswer → InviteInboxStatus
  | .acceptInvite => .accepted
  | .declineInvite => .declined
  | .deleteInvite => .deleted

end InviteAnswer

namespace InviteInboxBloc

/-- What the three handlers have in common, up to the `LoadInvites` that
they add at their end. -/
def onAnswer (answer : InviteAnswer) (invite : Invite) :
    ReportHandler InviteInboxState Unit := do
  emit { status := .loading }
  start (answer.call invite)
  emit { status := answer.status }
  wait

def onAcceptInvite (invite : Invite) : ReportHandler InviteInboxState Unit :=
  onAnswer .acceptInvite invite

def onDeclineInvite (invite : Invite) : ReportHandler InviteInboxState Unit :=
  onAnswer .declineInvite invite

def onDeleteInvite (invite : Invite) : ReportHandler InviteInboxState Unit :=
  onAnswer .deleteInvite invite

end InviteInboxBloc

/-! ## Sending an invite (`invite_bloc.dart`) -/

inductive InviteStatus where
  | initial
  | sending
  | sent
  | accepted
  | declined
  | revoked
  | failed
  deriving DecidableEq, Repr

structure InviteState where
  status : InviteStatus
  invite : Option Invite := none

def InviteBloc.onSendInvite (placeList : PlaceList) (userName inviterUsername : String) :
    ReportHandler InviteState Unit := do
  emit { status := .sending }
  let inviteSent ← call (.inviteContributorToList placeList userName inviterUsername)
  if inviteSent = some true then do
    emit { status := .sent }
    wait
    emit { status := .initial }
  else do
    emit { status := .failed }
    wait
    emit { status := .initial }

/-- Without the states, the handler is the send. -/
theorem InviteBloc.effect_onSendInvite (firebaseUser : AuthUser) (placeList : PlaceList)
    (userName inviterUsername : String) (s : InviteState) :
    effect (ReportedCall.task firebaseUser) (onSendInvite placeList userName inviterUsername) s =
      (sendInvite firebaseUser placeList userName inviterUsername).void := by
  simp only [onSendInvite, sendInvite, Prog.bind_eq, effect_emit_bind, effect_call_bind,
    Prog.void, Prog.bind_assoc, ReportedCall.task]
  refine congrArg (Prog.bind _) (funext fun inviteSent => ?_)
  by_cases h : inviteSent = some true <;> simp [h, Prog.bind]

end GottaGo
