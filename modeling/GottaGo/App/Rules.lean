/-
GottaGo.App.Rules — who may write what.

The repository has no access rules: the database takes every write that
the client sends. `MayWrite sees committed a p w` are the rules that the app
turns out to stay within, for somebody who is signed in as `a` and uses a
page of `p`. The page decides about most of it: the document of the user,
the name that is registered, the owner of a list that is created and the
inbox are those of `p`. Who is signed in decides about the lists in the
user's document, the deletion of a list and the sender of an invite. When
the pages show who is signed in, the two are one user, and the rules are
those that one would give the database: everybody writes the own document
and no other, creates lists in the own name, joins a list only after an
invite to it, and puts nothing into the inbox of another user but an invite
or the answer to one.

What is written below a list, and the list itself by an edit, is open to
anybody (`AnyoneMayWrite`), as the code has no check there; the contributors
that an edit writes are at least members. `committed` are the writes that
there have been, as in `App/Documents`.
-/
import GottaGo.App.Documents

namespace GottaGo

open GottaGo.Async GottaGo.Firestore

variable (sees : String → String → Prop) (committed : Write Path → Prop)

/-- The list may be written to the document of list `l`. -/
def OwnList (l : String) (placeList : PlaceList) : Prop :=
  placeList.placeListId = some l ∧ Founded committed l placeList.listOwnerId ∧
    ∃ ids, placeList.contributorIds = some ids ∧ ∀ u ∈ ids, Admitted sees committed l u

/-- What user `a`, on a page of `p`, may put into the inbox of `u` as document
`id`. -/
inductive MayPut (a p u id : String) : Invite → Prop
  /-- An invite to a list of the user's, for somebody who has a name. -/
  | invite {invite : Invite} :
      invite.inviteStatus = "sent" → invite.invitedUserId = u → invite.listOwnerId = a →
      Admitted sees committed invite.placeListId a → HasRegistered committed u →
      MayPut a p u id invite
  /-- The answer to an invite, for the user who has sent it. -/
  | answer {sent : Invite} {status : String} :
      Invited sees committed p id sent → sent.listOwnerId = u →
      status = "accepted" ∨ status = "declined" →
      MayPut a p u id (sent.copyWith { inviteStatus := some status })
  /-- A notice that is put back. -/
  | notice {invite : Invite} :
      u = p → invite.listOwnerId = p → invite.inviteStatus = "declined" →
      Answers sees committed id invite → MayPut a p u id invite

/-- What user `a` may write on a page of `p`. -/
def MayWrite (a p : String) : Write Path → Prop
  | .set (.users u) _ | .delete (.users u) => u = p
  | .update (.users u) fs =>
    -- Of the document of who is signed in, the lists are written.
    u = p ∨ u = a ∧ ∃ w, fs = [("placeListIds", w)] ∧
      KeepsIds (fun l => Admitted sees committed l a) w
  | .set (.usernames _) d => d.get? "userId" = some (.str p)
  | .delete (.usernames _) => True
  | .set (.placeLists _) d => d.get? "listOwnerId" = some (.str p)
  | .update (.placeLists l) fs =>
    fs = [("contributorIds", .arrayUnion [.str p])] ∧ Admitted sees committed l p
  | .delete (.placeLists l) => Founded committed l a
  | .set (.invites u id) d =>
    ∃ invite, Invite.fromSnapshot id (some d) = .ok invite ∧
      MayPut sees committed a p u id invite
  | .delete (.invites u id) =>
    -- Another inbox is cleared of an invite by the user who has sent it.
    u = p ∨ ∃ d invite, committed (.set (.invites p id) d) ∧
      Invite.fromSnapshot id (some d) = .ok invite ∧ invite.listOwnerId = p ∧
      invite.invitedUserId = u
  | _ => False

/-- What anybody may write. -/
def AnyoneMayWrite : Write Path → Prop
  | .update (.placeLists l) fs =>
    ∃ placeList fields, OwnList sees committed l placeList ∧
      placeList.toDocument = .ok fields ∧ fs = putAll fields
  | .set (.places _ id) d | .set (.visitedPlaces _ id) d => PlaceDoc id d
  | .delete (.places _ _) | .delete (.visitedPlaces _ _) => True
  | _ => False

/-- The writes that are allowed to those who use the app. -/
def Allowed (w : Write Path) : Prop :=
  AnyoneMayWrite sees committed w ∨ ∃ a p, sees a p ∧ MayWrite sees committed a p w

/-- Somebody was signed in as user `v`, or a page showed `v`. -/
def TakesPart (v : String) : Prop := ∃ u, sees v u ∨ sees u v

variable {sees} {committed} {w : Write Path} {a p u l : String}

theorem MayWrite.allowed (h : MayWrite sees committed a p w) (hs : sees a p) :
    Allowed sees committed w :=
  .inr ⟨a, p, hs, h⟩

/-! ## What the rules keep from a user who takes no part -/

/-- The owner of a list takes part. -/
theorem Founded.takesPart (h : Founded committed l u)
    (hallowed : ∀ w, committed w → Allowed sees committed w) : TakesPart sees u := by
  obtain ⟨d, hset, howner⟩ := h
  obtain hanyone | ⟨a, p, hs, hmay⟩ := hallowed _ hset
  · exact hanyone.elim
  · obtain rfl : u = p := by
      have heq : some (Value.str u) = some (.str p) := howner.symm.trans hmay
      simpa using heq
    exact ⟨a, .inr hs⟩

/-- Only who takes part has a name. -/
theorem HasRegistered.takesPart (h : HasRegistered committed u)
    (hallowed : ∀ w, committed w → Allowed sees committed w) : TakesPart sees u := by
  obtain ⟨n, d, hset, huser⟩ := h
  obtain hanyone | ⟨a, p, hs, hmay⟩ := hallowed _ hset
  · exact hanyone.elim
  · obtain rfl : u = p := by
      have heq : some (Value.str u) = some (.str p) := huser.symm.trans hmay
      simpa using heq
    exact ⟨a, .inr hs⟩

/-- Only who takes part accepts an invite. -/
theorem takesPart_of_accepted {sent : Invite} {v id : String} {d : Doc}
    (h : committed (.set (.invites v id) d))
    (hread : Invite.fromSnapshot id (some d) =
      .ok (sent.copyWith { inviteStatus := some "accepted" }))
    (hallowed : ∀ w, committed w → Allowed sees committed w) :
    TakesPart sees sent.invitedUserId := by
  obtain hanyone | ⟨a, p, hs, invite, hread', hput⟩ := hallowed _ h
  · exact hanyone.elim
  · rw [hread, Except.ok.injEq] at hread'
    cases hput with
    | invite hsent =>
      rw [← hread'] at hsent
      simp [Invite.copyWith] at hsent
    | @answer invite status hinvited =>
      -- The answer names the invitee of the invite that was sent.
      have huser : sent.invitedUserId = invite.invitedUserId := by
        have h := congrArg Invite.invitedUserId hread'
        simpa [Invite.copyWith] using h
      rw [huser, hinvited.2.1]
      exact ⟨a, .inr hs⟩
    | notice _ _ hdeclined _ =>
      rw [← hread'] at hdeclined
      simp [Invite.copyWith] at hdeclined

/-- The members of a list take part. -/
theorem Admitted.takesPart (h : Admitted sees committed l u)
    (hallowed : ∀ w, committed w → Allowed sees committed w) : TakesPart sees u := by
  cases h with
  | owner hfounded => exact hfounded.takesPart hallowed
  | page _ hs => exact ⟨_, .inl hs⟩
  | invitee _ _ _ _ _ haccepted hread =>
    exact takesPart_of_accepted haccepted hread hallowed

/-- Nothing is put into the inbox of a user who takes no part. -/
theorem MayPut.takesPart {id : String} {invite : Invite}
    (h : MayPut sees committed a p u id invite) (hs : sees a p)
    (hallowed : ∀ w, committed w → Allowed sees committed w) : TakesPart sees u := by
  cases h with
  | invite _ _ _ _ hname => exact hname.takesPart hallowed
  | answer hinvited howner => exact howner ▸ hinvited.2.2.1.takesPart hallowed
  | notice hu => exact hu ▸ ⟨a, .inr hs⟩

end GottaGo
