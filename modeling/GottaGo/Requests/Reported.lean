/-
GottaGo.Requests.Reported — which successes are reported for what was
stored.

A moment at which a success is shown is held against what had been stored
by then. `AddPlace` reports when its delay is over, so that it depends on
how far the call it started has got by then, and on how that ended
(`placeStored_iff`). The answers to an invite are reported before their
call can have had any answer (`not_completed`). `SendInvite` reports that a
name was found, and the invite is only written by a listener that is opened
on the way (`inviteStored_iff`). `RestorePurchases` does not look at what it
gets (`restored_iff`).
-/
import GottaGo.Bloc.Purchases
import GottaGo.Bloc.Reporting
import GottaGo.Invites.Send

namespace GottaGo

open GottaGo.Async GottaGo.Firestore Handler

/-- What has been written since `st`. -/
def writtenSince (st st' : AppState) : List (Write Path) := st'.log.drop st.log.length

@[simp] theorem writtenSince_self {st st' : AppState} (h : st'.log = st.log) :
    writtenSince st st' = [] := by
  rw [writtenSince, h, List.drop_length]

theorem writtenSince_commit {st st' : AppState} (h : st'.log = st.log) (w : Write Path)
    (s : Store Path) : writtenSince st (st'.commit w s) = [w] := by
  rw [writtenSince, State.commit_log, h, List.drop_left]

/-- All that a handler shows that starts in state `s` over `st`. -/
abbrev shownBy {S : Type} (firebaseUser : AuthUser) (π : Req Path Listener → Outcome)
    (during : Nat → List (Nat × Outcome)) (t : ReportHandler S Unit) (s : S) (st : AppState) :
    List (Moment S AppState (Req Path Listener) Ans Err) :=
  moments (ReportedCall.task firebaseUser) serve π during t s st

/-! ## Adding a place -/

/-- The place has been written to the list since `st`; where an id is missing
a new one was drawn. -/
def PlaceWritten (place : Place) (placeList : PlaceList) (st st' : AppState) : Prop :=
  ∃ listId placeId, placeList.placeListId.getD listId = listId ∧
    place.placeId.getD placeId = placeId ∧
    .set (.places listId placeId) (Doc.ofList place.toDocument) ∈ writtenSince st st'

/-- The ids that `addPlaceToList` has to draw. -/
def missingIds (place : Place) (placeList : PlaceList) : Nat :=
  (if placeList.placeListId.isNone then 1 else 0) + if place.placeId.isNone then 1 else 0

/-- The write succeeds among the first answers `os` to the call. -/
def WriteSucceeds (n : Nat) (os : List Outcome) : Prop :=
  ∃ o, os[n]? = some o ∧ o.fault = false

section AddPlace

variable {place : Place} {placeList : PlaceList} {st : AppState} {n : Nat}

/-- Fed in any state with the writes of `st`, the call writes the place just
when its request number `n` succeeds. -/
def WritesAfter (place : Place) (placeList : PlaceList) (st : AppState) (n : Nat)
    (t : App Unit) : Prop :=
  ∀ (st' : AppState) os, st'.log = st.log →
    (PlaceWritten place placeList st (t.feed serve st' os).1 ↔ WriteSucceeds n os)

theorem not_placeWritten {st' : AppState} (h : st'.log = st.log) :
    ¬ PlaceWritten place placeList st st' := by
  rintro ⟨listId, placeId, -, -, hmem⟩
  simp [writtenSince_self h] at hmem

theorem writesAfter_write {listId placeId : String}
    (hlist : placeList.placeListId.getD listId = listId)
    (hplace : place.placeId.getD placeId = placeId) {k : Except Err Unit → App Unit}
    (hk : ∀ r, (k r).Ended) :
    WritesAfter place placeList st 0
      (.ask (.write (.set (.places listId placeId) (Doc.ofList place.toDocument))) k) := by
  intro st' os hst
  cases os with
  | nil => exact iff_of_false (not_placeWritten hst) (by simp [WriteSucceeds])
  | cons o os =>
    have hended : ∀ r s, ((k r).feed serve s os).1 = s := by
      intro r s
      have hr := hk r
      cases hkr : k r with
      | ask q k' => simp [hkr, Prog.Ended] at hr
      | _ => rfl
    rw [Prog.feed, hended]
    cases hf : o.fault with
    | true =>
      refine iff_of_false ?_ (by simp [WriteSucceeds, hf])
      simpa [serve, hf] using not_placeWritten hst
    | false =>
      refine iff_of_true ⟨listId, placeId, hlist, hplace, ?_⟩ ⟨o, rfl, hf⟩
      simp [serve, hf, writtenSince_commit hst]

theorem writesAfter_draw {coll : String → Path} {k : Except Err String → App Unit}
    (hk : ∀ id, WritesAfter place placeList st n (k (.ok id))) :
    WritesAfter place placeList st (n + 1) (.ask (.newDoc coll) k) := by
  intro st' os hst
  cases os with
  | nil => exact iff_of_false (not_placeWritten hst) (by simp [WriteSucceeds])
  | cons o os => exact hk o.draw (st'.draw o.draw) os hst

theorem writesAfter_addPlaceToList (firebaseUser : AuthUser) :
    WritesAfter place placeList st (missingIds place placeList)
      (ReportedCall.task firebaseUser (.addPlaceToList place placeList)).void := by
  have hended : ∀ r : Except Err Unit,
      (Prog.void (Prog.tryCatch (Prog.ofExcept r) fun e =>
        if e = .firebase then .raise .exception else .raise e : App Unit)).Ended := by
    intro r
    rcases r with e | ⟨⟩
    · by_cases he : e = .firebase <;> simp [Prog.ofExcept, Prog.tryCatch, he, Prog.void,
        Prog.bind, Prog.Ended]
    · trivial
  simp only [ReportedCall.task, PlaceListRepository.addPlaceToList,
    PlaceListRepository.placeRef, PlaceListRepository.movePlace.listId, missingIds]
  rcases hl : placeList.placeListId with _ | listId
  · rcases hp : place.placeId with _ | placeId
    · exact writesAfter_draw fun _ => writesAfter_draw fun _ =>
        writesAfter_write (by simp [hl]) (by simp [hp]) hended
    · exact writesAfter_draw fun _ => writesAfter_write (by simp [hl]) (by simp [hp]) hended
  · rcases hp : place.placeId with _ | placeId
    · exact writesAfter_draw fun _ => writesAfter_write (by simp [hl]) (by simp [hp]) hended
    · exact writesAfter_write (by simp [hl]) (by simp [hp]) hended

/-- `AddPlace` reports a place that is stored just when the write succeeds
before the delay is over. -/
theorem placeStored_iff (firebaseUser : AuthUser) (π : Req Path Listener → Outcome)
    (during : Nat → List (Nat × Outcome)) (s : PlacesDisplay) :
    (∀ m ∈ shownBy firebaseUser π during (SavedPlacesBloc.onAddPlace place placeList) s st,
      m.shown.IsAdded → PlaceWritten place placeList st m.world) ↔
      WriteSucceeds (missingIds place placeList) (Stage.decisions 0 (during 0)) := by
  rw [← writesAfter_addPlaceToList firebaseUser st _ rfl]
  unfold shownBy moments SavedPlacesBloc.onAddPlace
  simp only [Prog.bind_eq, Prog.eval_bind, beside_start, beside_emit, beside_wait]
  have hone := Stage.meanwhile_one serve
    (g := (Stage.start { state := s, world := st }
      (ReportedCall.task firebaseUser (.addPlaceToList place placeList)).void).emit
        (.state .loading)) rfl (during 0)
  simp only [Stage.emit_world, Stage.start_world] at hone
  simp [PlacesDisplay.IsAdded, hone.1]

end AddPlace

/-! ## Answering an invite -/

/-- The call has ended without an exception. -/
def Completed (t : App Unit) : Prop := t = .ret ()

/-- A call that has just been started waits for its first answer. -/
theorem not_completed (firebaseUser : AuthUser) (answer : InviteAnswer) (invite : Invite) :
    ¬ Completed (ReportedCall.task firebaseUser (answer.call invite)).void := by
  have hnot : ¬ (ReportedCall.task firebaseUser (answer.call invite)).void.Ended := by
    cases answer with
    | acceptInvite =>
      show ¬ (InviteRepository.acceptInvite invite).void.Ended
      rw [InviteRepository.acceptInvite]
      cases invite.inviteId <;> exact id
    | declineInvite =>
      show ¬ (InviteRepository.declineInvite invite).void.Ended
      rw [InviteRepository.declineInvite]
      cases invite.inviteId <;> exact id
    | deleteInvite =>
      show ¬ (InviteRepository.deleteInvite invite).void.Ended
      rw [InviteRepository.deleteInvite]
      cases invite.inviteId <;> exact id
  intro h
  rw [Completed] at h
  exact hnot (h ▸ trivial)

/-- An answer to an invite is reported before it is given. -/
theorem not_answerCompleted (firebaseUser : AuthUser) (π : Req Path Listener → Outcome)
    (during : Nat → List (Nat × Outcome)) (answer : InviteAnswer) (invite : Invite)
    (s : InviteInboxState) (st : AppState) :
    ¬ ∀ m ∈ shownBy firebaseUser π during (InviteInboxBloc.onAnswer answer invite) s st,
      m.shown.status = answer.status → ∀ t ∈ m.calls, Completed t := by
  unfold shownBy moments InviteInboxBloc.onAnswer
  simp only [Prog.bind_eq, Prog.eval_bind, beside_start, beside_emit, beside_wait]
  intro h
  exact not_completed firebaseUser answer invite
    (h ⟨{ status := answer.status }, st, _⟩ (by simp; rfl) rfl _ List.mem_cons_self)

/-! ## Sending an invite -/

/-- The name is looked up without failure, and is registered to a user. -/
def NameFound (π : Req Path Listener → Outcome) (st : AppState) (userName : String) : Prop :=
  (π (.get (.usernames userName))).fault = false ∧
    ∃ userId, st.store.field (.usernames userName) "userId" = some (.str userId)

/-- `checkUsernameExists` returns a user just when the name is found. -/
theorem checkUsernameExists_cases (π : Req Path Listener → Outcome) (st : AppState)
    (userName : String) :
    (NameFound π st userName ∧ ∃ userId, Prog.eval (serveBy π)
      (DatabaseRepository.checkUsernameExists userName) st = (.ok (some userId), st)) ∨
    (¬ NameFound π st userName ∧ ∀ userId, (Prog.eval (serveBy π)
      (DatabaseRepository.checkUsernameExists userName) st).1 ≠ .ok (some userId)) := by
  rw [DatabaseRepository.checkUsernameExists, rethrowing, Fire.onFirebaseException,
    Prog.bind_eq, Prog.eval_tryCatch, Prog.eval_bind, Fire.get, Prog.eval_await, serveBy, serve]
  unfold NameFound Store.field
  cases hf : (π (.get (.usernames userName))).fault with
  | true => exact .inr ⟨by simp, by simp⟩
  | false =>
    rcases hsnap : st.store.get (.usernames userName) with _ | d
    · exact .inr ⟨by simp, by simp⟩
    rcases hfield : d.get? "userId" with _ | v
    · exact .inr ⟨by simp [hfield], by simp [fieldOf, hfield, bind, Except.bind]⟩
    cases v with
    | str userId =>
      refine .inl ⟨by simp [hfield], userId, ?_⟩
      simp [fieldOf, hfield, bind, Except.bind, asString?]
    | _ =>
      refine .inr ⟨by simp [hfield], ?_⟩
      simp [fieldOf, hfield, bind, Except.bind, asString?]

/-- `inviteContributorToList` answers `true` just when the name is found, and
writes nothing. -/
theorem inviteContributorToList_cases (π : Req Path Listener → Outcome) (st : AppState)
    (firebaseUser : AuthUser) (placeList : PlaceList) (userName senderUsername : String) :
    (NameFound π st userName ∧ ∃ st', Prog.eval (serveBy π)
        (PlaceListRepository.inviteContributorToList firebaseUser placeList userName
          senderUsername) st = (.ok (some true), st') ∧ st'.log = st.log) ∨
      (¬ NameFound π st userName ∧ (Prog.eval (serveBy π)
        (PlaceListRepository.inviteContributorToList firebaseUser placeList userName
          senderUsername) st).1 ≠ .ok (some true)) := by
  rw [PlaceListRepository.inviteContributorToList, Fire.onFirebaseException, Prog.bind_eq,
    Prog.eval_tryCatch, Prog.eval_bind]
  rcases checkUsernameExists_cases π st userName with ⟨hfound, userId, heval⟩ | ⟨hnot, hr⟩
  · refine .inl ⟨hfound, ?_⟩
    rw [heval]
    simp [Fire.listen, serveBy, serve, State.open_]
  · refine .inr ⟨hnot, ?_⟩
    rcases heval : Prog.eval (serveBy π) (DatabaseRepository.checkUsernameExists userName) st
      with ⟨e | userId, st'⟩
    · by_cases he : e = .firebase <;> simp [he]
    · cases userId with
      | none => simp
      | some userId =>
        rw [heval] at hr
        exact absurd rfl (hr userId)

/-- `sent` is reported for an invite that is stored just when it is not
reported. -/
theorem inviteStored_iff (firebaseUser : AuthUser) (π : Req Path Listener → Outcome)
    (during : Nat → List (Nat × Outcome)) (placeList : PlaceList)
    (userName inviterUsername : String) (s : InviteState) (st : AppState) :
    (∀ m ∈ shownBy firebaseUser π during
        (InviteBloc.onSendInvite placeList userName inviterUsername) s st,
      m.shown.status = .sent → ∃ w ∈ writtenSince st m.world, sentInvite w = true) ↔
      ¬ NameFound π st userName := by
  unfold shownBy moments InviteBloc.onSendInvite
  simp only [Prog.bind_eq, Prog.eval_bind, beside_emit, beside_call]
  have hsrv : (fun q s => serve (π q) q s : (q : Req Path Listener) → AppState → _) =
    serveBy π := rfl
  simp only [Stage.emit_world, ReportedCall.task, hsrv]
  rcases inviteContributorToList_cases π st firebaseUser placeList userName inviterUsername with
    ⟨hfound, st', heval, hlog⟩ | ⟨hnot, hr⟩
  · simp [heval, hfound, writtenSince_self hlog]
  · rcases heval : Prog.eval (serveBy π) (PlaceListRepository.inviteContributorToList
      firebaseUser placeList userName inviterUsername) st with ⟨e | inviteSent, st'⟩
    · simp [hnot]
    · rw [heval] at hr
      have hsent : inviteSent ≠ some true := fun h => hr (by rw [h])
      simp [hnot, hsent]

/-! ## Restoring purchases -/

/-- `RestorePurchases` reports what is active just when it is, or when the
plugin throws what the repository does not catch. -/
theorem restored_iff (customer : Nat → (c : CustomerCall) → Except PurchasesErr c.Answer)
    (s : PurchasesState) :
    (.updated ∈ emissions customer PurchasesBloc.onRestorePurchases s →
      ∃ info, customer 0 .restorePurchases = .ok info ∧ info.isActive) ↔
      (∃ info, customer 0 .restorePurchases = .ok info ∧ info.isActive) ∨
        ¬ PurchasesBloc.Tolerated (customer 0 .restorePurchases) := by
  unfold emissions PurchasesBloc.onRestorePurchases
  simp only [Prog.bind_eq, Prog.eval_bind, eval_emit, PurchasesBloc.eval_restorePurchases]
  rcases customer 0 .restorePurchases with e | info
  · by_cases he : e = .platformException <;> 
      simp [PurchasesBloc.caught, PurchasesBloc.Tolerated, he, Bloc.emit]
  · simp [PurchasesBloc.caught, PurchasesBloc.Tolerated, Bloc.emit]

/-- For every outcome of every call, at any delay: a place is reported as
added only if it is stored just when its write succeeds before the delay is
over; an answer to an invite is never reported only if it is given; `sent`
is reported only for an invite that is stored just when the name is not
found; purchases are reported as updated only if the customer has something
active just when that is so, or an exception passes the repository. -/
theorem reported_iff_stored (firebaseUser : AuthUser) (π : Req Path Listener → Outcome)
    (during : Nat → List (Nat × Outcome))
    (customer : Nat → (c : CustomerCall) → Except PurchasesErr c.Answer) (st : AppState) :
    (∀ place placeList s,
      (∀ m ∈ shownBy firebaseUser π during (SavedPlacesBloc.onAddPlace place placeList) s st,
        m.shown.IsAdded → PlaceWritten place placeList st m.world) ↔
        WriteSucceeds (missingIds place placeList) (Stage.decisions 0 (during 0))) ∧
    (∀ answer invite s,
      ¬ ∀ m ∈ shownBy firebaseUser π during (InviteInboxBloc.onAnswer answer invite) s st,
        m.shown.status = answer.status → ∀ t ∈ m.calls, Completed t) ∧
    (∀ placeList userName inviterUsername s,
      (∀ m ∈ shownBy firebaseUser π during
          (InviteBloc.onSendInvite placeList userName inviterUsername) s st,
        m.shown.status = .sent → ∃ w ∈ writtenSince st m.world, sentInvite w = true) ↔
        ¬ NameFound π st userName) ∧
    (∀ s, (.updated ∈ emissions customer PurchasesBloc.onRestorePurchases s →
        ∃ info, customer 0 .restorePurchases = .ok info ∧ info.isActive) ↔
      (∃ info, customer 0 .restorePurchases = .ok info ∧ info.isActive) ∨
        ¬ PurchasesBloc.Tolerated (customer 0 .restorePurchases)) :=
  ⟨fun _ _ => placeStored_iff firebaseUser π during,
    fun answer invite s => not_answerCompleted firebaseUser π during answer invite s st,
    fun placeList userName inviterUsername s =>
      inviteStored_iff firebaseUser π during placeList userName inviterUsername s st,
    restored_iff customer⟩

/-- The write fails, and half a second later the place is reported as
added. -/
theorem place_reported_not_stored :
    ¬ ∀ firebaseUser π during place placeList s st,
      ∀ m ∈ shownBy firebaseUser π during (SavedPlacesBloc.onAddPlace place placeList) s st,
        m.shown.IsAdded → PlaceWritten place placeList st m.world := by
  intro h
  have hstored := h { uid := "ada" } (fun _ => {}) (fun _ => [(0, { fault := true })])
    { placeId := some "colosseum" }
    { placeListId := some "rome", name := "Rome", listOwnerId := "ada", icon := [],
      placeCount := 0 } (.state .initial) { store := .ofList [] }
  rw [placeStored_iff] at hstored
  obtain ⟨o, ho, hfault⟩ := hstored
  cases ho
  exact Bool.false_ne_true hfault.symm

end GottaGo
