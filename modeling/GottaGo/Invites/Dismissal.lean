/-
GottaGo.Invites.Dismissal — the notices of an inbox and the buttons that
put them away (`invite_list.dart`, `invites.dart`).

`InviteList` chooses a card by the status of the invite, and the close
button of a card adds an event to `InviteInboxBloc`. On the card of an
accepted invite this is `DeleteInvite`. On that of a declined one it is
`DeclineInvite`, the event by which the invitee had answered: its handler
puts the notice back where it was. A notice never lies with the invitee
(`NoticesAway`), so the delete that follows does not find it there.
-/
import GottaGo.Bloc.Reporting
import GottaGo.Invites.LifeCycle

namespace GottaGo

open GottaGo.Async GottaGo.Firestore Handler

/-! ## The cards -/

inductive InviteCard where
  | declinedGroupInvite (thisInvite : Invite)
  | acceptedGroupInvite (thisInvite : Invite)
  | collabInvite (thisInvite : Invite)

/-- The card that `InviteList` builds. -/
def InviteList.card (thisInvite : Invite) : InviteCard :=
  if thisInvite.inviteStatus = "declined" then .declinedGroupInvite thisInvite
  else if thisInvite.inviteStatus = "accepted" then .acceptedGroupInvite thisInvite
  else .collabInvite thisInvite

/-- The event that the close button adds. An invite that asks for an answer
has no such button. -/
def InviteCard.onClose : InviteCard → Option (InviteAnswer × Invite)
  | .declinedGroupInvite thisInvite => some (.declineInvite, thisInvite)
  | .acceptedGroupInvite thisInvite => some (.deleteInvite, thisInvite)
  | .collabInvite _ => none

/-! ## Handling the event -/

section Handling

variable (firebaseUser : AuthUser) (π : Req Path Listener → Outcome)
  (during : Nat → List (Nat × Outcome)) (s : InviteInboxState)

/-- What there is when the handler has come to its end. The call that it
starts is answered during its wait. -/
def InviteInboxBloc.handled (event : InviteAnswer × Invite) (st : AppState) :
    Stage InviteInboxState AppState (Req Path Listener) Ans Err :=
  (Prog.eval (beside (ReportedCall.task firebaseUser) serve π during)
    (onAnswer event.1 event.2) { state := s, world := st }).2

/-- The handler leaves its call as far as the answers have brought it. -/
theorem InviteInboxBloc.handled_eq (event : InviteAnswer × Invite) (st : AppState) :
    let fed := (ReportedCall.task firebaseUser (event.1.call event.2)).void.feed serve st
      (Stage.decisions 0 (during 0))
    (handled firebaseUser π during s event st).world = fed.1 ∧
      (handled firebaseUser π during s event st).calls = [fed.2] := by
  unfold handled onAnswer
  simp only [Prog.bind_eq, Prog.eval_bind, beside_start, beside_emit, beside_wait]
  exact Stage.meanwhile_one serve rfl (during 0)

end Handling

section Calls

variable {st : AppState} {o₁ o₂ : Outcome} {os : List Outcome}

/-- A call that makes two writes ends when both have been answered. -/
theorem feed_writes {w₁ w₂ : Write Path} {s₁ s₂ : Store Path}
    (hw₁ : w₁.apply st.store = some s₁) (hw₂ : w₂.apply s₁ = some s₂)
    (ho₁ : o₁.fault = false) (ho₂ : o₂.fault = false) :
    (writeBoth w₁ w₂).void.feed serve st (o₁ :: o₂ :: os) =
      ((st.commit w₁ s₁).commit w₂ s₂, .ret ()) := by
  have hfirst : serve o₁ (Req.write w₁ : Req Path Listener) st = (.ok (), st.commit w₁ s₁) := by
    simp [serve, ho₁, hw₁]
  have hsecond : serve o₂ (Req.write w₂ : Req Path Listener) (st.commit w₁ s₁) =
      (.ok (), (st.commit w₁ s₁).commit w₂ s₂) := by
    simp [serve, ho₂, hw₂]
  simp only [writeBoth, rethrowing, Fire.onFirebaseException, Prog.await, Prog.bind, Prog.tryCatch,
    Prog.void, Prog.feed, hfirst, hsecond, Prog.ofExcept]

/-- The handler of an event whose call makes two writes, when none of the
answers is a failure and there are enough of them. -/
theorem handled_of_writes (firebaseUser : AuthUser) (π : Req Path Listener → Outcome)
    {during : Nat → List (Nat × Outcome)} (s : InviteInboxState)
    (event : InviteAnswer × Invite) {w₁ w₂ : Write Path} {s₁ s₂ : Store Path}
    (hfault : ∀ io ∈ during 0, io.2.fault = false)
    (hanswers : 2 ≤ (Stage.decisions 0 (during 0)).length)
    (htask : (ReportedCall.task firebaseUser (event.1.call event.2)).void = (writeBoth w₁ w₂).void)
    (hw₁ : w₁.apply st.store = some s₁) (hw₂ : w₂.apply s₁ = some s₂) :
    let handled := InviteInboxBloc.handled firebaseUser π during s event st
    handled.calls = [.ret ()] ∧ handled.world.store = s₂ := by
  intro handled
  have hok : ∀ o ∈ Stage.decisions 0 (during 0), o.fault = false := by
    intro o ho
    obtain ⟨io, hio, rfl⟩ := List.mem_map.mp ho
    exact hfault io (List.mem_of_mem_filter hio)
  obtain ⟨hworld, hcalls⟩ := InviteInboxBloc.handled_eq firebaseUser π during s event st
  rw [htask] at hworld hcalls
  rcases hos : Stage.decisions 0 (during 0) with _ | ⟨o₁, _ | ⟨o₂, os⟩⟩
  · simp [hos] at hanswers
  · simp [hos] at hanswers
  · rw [hos] at hworld hcalls hok
    rw [feed_writes hw₁ hw₂ (hok o₁ (by simp)) (hok o₂ (by simp))] at hworld hcalls
    exact ⟨hcalls, congrArg State.store hworld⟩

end Calls

/-! ## Where a notice lies -/

/-- A notice names the invitee of the invite it answers. -/
theorem Answer.invitedUserId_of_notice {a : Answer} {invite i : Invite} {id : String}
    (h : Invite.fromSnapshot id (a.notice invite) = .ok i) :
    i.invitedUserId = invite.invitedUserId := by
  cases hs : a.status with
  | none =>
    rw [Answer.notice, hs] at h
    exact absurd (Invite.fromSnapshot_ok h).2 (by simp)
  | some status =>
    rw [Answer.notice, hs, Option.map_some, Invite.fromSnapshot_toDocument] at h
    obtain rfl := Except.ok.inj h
    rfl

/-- No notice lies in the inbox of its own invitee. -/
def NoticesAway (b : Postbox) : Prop :=
  ∀ uid id invite, Invite.fromSnapshot id (b.inbox uid id) = .ok invite →
    invite.inviteStatus ≠ "sent" → invite.invitedUserId ≠ uid

/-- An answer that leaves a notice empties the inbox of the invitee last. -/
theorem LifeStep.noticesAway {b b' : Postbox} (hstep : LifeStep b b') (hkept : Kept b)
    (h : NoticesAway b) : NoticesAway b' := by
  cases hstep with
  | @sendInvite π st st' sent invite id hstatus hdraw hfresh heval =>
    intro uid j i hread hi
    have hread : Invite.fromSnapshot j (inbox st'.store uid j) = .ok i := hread
    rw [(sendInvite_inboxes heval uid j).2] at hread
    split at hread
    · rw [Invite.fromSnapshot_toDocument] at hread
      obtain rfl := Except.ok.inj hread
      exact absurd hstatus hi
    · exact h uid j i hread hi
  | @answer π st st' sent a read uid id hread heval =>
    have hne : inbox st.store uid id ≠ none :=
      Option.isSome_iff_ne_none.mp (Invite.fromSnapshot_ok hread).2
    obtain ⟨invite, status, hlies⟩ := hkept.lies uid id hne
    intro v j i hread' hi
    have hread' : Invite.fromSnapshot j (inbox st'.store v j) = .ok i := hread'
    rw [hlies.answer_inboxes hread heval] at hread'
    split at hread'
    · exact absurd (Invite.fromSnapshot_ok hread').2 (by simp)
    · next hinvited =>
      split at hread'
      · next howner =>
        -- what lies with the owner is the notice
        intro hv
        exact hinvited ⟨howner.1, hv.symm.trans (Answer.invitedUserId_of_notice hread')⟩
      · exact h v j i hread' hi

theorem LifeRun.noticesAway {b b' : Postbox} (hrun : LifeRun b b') (hkept : Kept b)
    (h : NoticesAway b) : NoticesAway b' := by
  induction hrun with
  | refl => exact h
  | tail hrun hstep ih => exact hstep.noticesAway (LifeRun.keeps hrun hkept) ih

/-! ## Putting a notice away -/

/-- Invite `id` has left every inbox, and nothing else has changed. -/
structure Dismissed (id : String) (st st' : AppState) : Prop where
  gone : ∀ uid, inbox st'.store uid id = none
  kept : ∀ p, (∀ uid, p ≠ .invites uid id) → st'.store.get p = st.store.get p

section Notices

variable {b : Postbox} {uid id : String} {invite : Invite} {st' : AppState}

/-- A notice is read from the inbox of the list's owner, and lies in no
other. -/
theorem Kept.notice (h : Kept b)
    (hread : Invite.fromSnapshot id (b.inbox uid id) = .ok invite)
    (hnotice : invite.inviteStatus ≠ "sent") :
    uid = invite.listOwnerId ∧ ∀ v, v ≠ uid → b.inbox v id = none := by
  have hne : b.inbox uid id ≠ none :=
    Option.isSome_iff_ne_none.mp (Invite.fromSnapshot_ok hread).2
  obtain ⟨sent, status, hlies⟩ := h.lies uid id hne
  obtain rfl := hlies.read hread
  constructor
  · obtain ⟨hsent, -⟩ | ⟨-, howner⟩ := hlies.holder
    · exact absurd hsent hnotice
    · exact howner
  · intro v hv
    by_contra hv'
    exact hv (h.once v uid id hv' hne)

/-- The deletes of `deleteInvite` put a notice away. -/
theorem dismissed_of_deleted (howner : uid = invite.listOwnerId)
    (honly : ∀ v, v ≠ uid → b.inbox v id = none)
    (hstore : st'.store = (b.db.store.del (.invites invite.listOwnerId id)).del
      (.invites invite.invitedUserId id)) : Dismissed id b.db st' := by
  constructor
  · intro v
    rw [inbox, hstore, Store.get_del, Store.get_del]
    split
    · rfl
    · split
      · rfl
      · next hv =>
        refine honly v fun hu => hv ?_
        rw [hu, howner]
  · intro p hp
    rw [hstore, Store.get_del_of_ne _ (hp _), Store.get_del_of_ne _ (hp _)]

/-- What `declineInvite` sets lies in the inbox of the list's owner, unless
this is the invitee. -/
theorem not_dismissed_of_set {d : Doc} (haway : invite.invitedUserId ≠ invite.listOwnerId)
    (hstore : st'.store = (b.db.store.put (.invites invite.listOwnerId id) d).del
      (.invites invite.invitedUserId id)) : ¬ Dismissed id b.db st' := by
  intro h
  have hnone := h.gone invite.listOwnerId
  have hother : Path.invites invite.listOwnerId id ≠ .invites invite.invitedUserId id := by
    intro heq
    injection heq with howner
    exact haway howner.symm
  rw [inbox, hstore, Store.get_del_of_ne _ hother, Store.get_put_self] at hnone
  cases hnone

end Notices

/-- In every state that calls reach from one with empty inboxes, the close
button of a notice's card adds an event, and handling it to its end without
a failure puts the notice away just when it is that of an accepted
invite. -/
theorem notice_dismissed_iff {b₀ b : Postbox} (hempty : ∀ uid id, b₀.inbox uid id = none)
    (hsent : b₀.sent = []) (hrun : LifeRun b₀ b) {uid id : String} {invite : Invite}
    (hread : Invite.fromSnapshot id (b.inbox uid id) = .ok invite)
    (hnotice : invite.inviteStatus = "accepted" ∨ invite.inviteStatus = "declined")
    (firebaseUser : AuthUser) (π : Req Path Listener → Outcome)
    {during : Nat → List (Nat × Outcome)} (s : InviteInboxState)
    (hfault : ∀ io ∈ during 0, io.2.fault = false)
    (hanswers : 2 ≤ (Stage.decisions 0 (during 0)).length) :
    ∃ event, (InviteList.card invite).onClose = some event ∧
      let handled := InviteInboxBloc.handled firebaseUser π during s event b.db
      handled.calls = [.ret ()] ∧
        (Dismissed id b.db handled.world ↔ invite.inviteStatus = "accepted") := by
  have hkept₀ : Kept b₀ := kept_of_empty hempty hsent
  have haway₀ : NoticesAway b₀ := by
    intro v j i hi
    rw [hempty] at hi
    exact absurd (Invite.fromSnapshot_ok hi).2 (by simp)
  have hkept : Kept b := hrun.keeps hkept₀
  have hne : invite.inviteStatus ≠ "sent" := by
    rcases hnotice with h | h <;> simp [h]
  have hid : invite.inviteId = some id := (Invite.fromSnapshot_ok hread).1
  have haway : invite.invitedUserId ≠ uid :=
    LifeRun.noticesAway hrun hkept₀ haway₀ uid id invite hread hne
  obtain ⟨howner, honly⟩ := hkept.notice hread hne
  rcases hnotice with hstatus | hstatus
  · have hcard : InviteList.card invite = .acceptedGroupInvite invite := by
      simp [InviteList.card, hstatus]
    obtain ⟨hcalls, hstore⟩ := handled_of_writes firebaseUser π s
      (.deleteInvite, invite) hfault hanswers (congrArg Prog.void (deleteInvite_eq hid)) rfl rfl
    exact ⟨_, by rw [hcard]; rfl, hcalls,
      iff_of_true (dismissed_of_deleted howner honly hstore) hstatus⟩
  · have hcard : InviteList.card invite = .declinedGroupInvite invite := by
      simp [InviteList.card, hstatus]
    obtain ⟨hcalls, hstore⟩ := handled_of_writes firebaseUser π s
      (.declineInvite, invite) hfault hanswers (congrArg Prog.void (declineInvite_eq hid)) rfl rfl
    exact ⟨_, by rw [hcard]; rfl, hcalls,
      iff_of_false (not_dismissed_of_set (howner ▸ haway) hstore) (by simp [hstatus])⟩

/-- What `ada` reads when `bob` has answered. -/
def bobsNotice (status : String) : Invite := { bobsInvite with inviteStatus := status }

/-- Both requests of the call are answered while the handler waits. -/
def answeredInTime (_ : Nat) : List (Nat × Outcome) := [(0, {}), (0, {})]

/-- `bob` has accepted: the close button puts the notice away. -/
theorem notice_dismissed_accepted :
    ∃ event, (InviteList.card (bobsNotice "accepted")).onClose = some event ∧
      let handled := InviteInboxBloc.handled ⟨"ada", none⟩ calm answeredInTime
        { status := .loaded } event (bobAnswered .acceptInvite).db
      handled.calls = [.ret ()] ∧ Dismissed "i1" (bobAnswered .acceptInvite).db handled.world := by
  have hempty : ∀ uid id, (⟨uninvited, []⟩ : Postbox).inbox uid id = none := by
    intro uid id
    rfl
  have hread : Invite.fromSnapshot "i1" ((bobAnswered .acceptInvite).inbox "ada" "i1") =
      .ok (bobsNotice "accepted") := by decide
  have hfault : ∀ io ∈ answeredInTime 0, io.2.fault = false := by
    simp [answeredInTime]
  obtain ⟨event, hclose, hcalls, hiff⟩ := notice_dismissed_iff hempty rfl
    (lifeRun_bobAnswered .acceptInvite (.inl rfl)) hread (.inl rfl) ⟨"ada", none⟩ calm
    { status := .loaded } hfault (by decide)
  exact ⟨event, hclose, hcalls, hiff.mpr rfl⟩

/-- `bob` has declined: the close button leaves his notice where it is. -/
theorem notice_not_dismissed_declined :
    ∃ b event, LifeRun { db := uninvited } b ∧
      Invite.fromSnapshot "i1" (b.inbox "ada" "i1") = .ok (bobsNotice "declined") ∧
      (InviteList.card (bobsNotice "declined")).onClose = some event ∧
      let handled := InviteInboxBloc.handled ⟨"ada", none⟩ calm answeredInTime
        { status := .loaded } event b.db
      handled.calls = [.ret ()] ∧ ¬ Dismissed "i1" b.db handled.world := by
  have hread : Invite.fromSnapshot "i1" ((bobAnswered .declineInvite).inbox "ada" "i1") =
      .ok (bobsNotice "declined") := by decide
  refine ⟨bobAnswered .declineInvite, (.declineInvite, bobsNotice "declined"),
    lifeRun_bobAnswered .declineInvite (.inr rfl), hread, rfl, rfl, fun h => ?_⟩
  have hgone := h.gone "ada"
  revert hgone
  decide

end GottaGo
