/-
GottaGo.Invites.Answers — answers to one invite that overlap.

`InviteInboxBloc` starts `acceptInvite` and `declineInvite` without waiting
for them, so any number of them may be in flight on one invite, from any
device of the invitee. Each overwrites the notice that the inviter sees
("… accepted your invite", "… declined your invite"), whatever the notice
says, and only `acceptInvite` changes who is in the list.

`notice_agrees` says when the notice tells the truth in the end: no
`declineInvite` writes its notice once an `acceptInvite` has written its.
`notice_disagrees` is the shortest other run: both are tapped, and the
inviter is told of a refusal by a contributor.
-/
import GottaGo.Invites.LifeCycle

namespace GottaGo

open GottaGo.Async GottaGo.Async.Pool GottaGo.Firestore

/-- The status in the notice of invite `id` to the list's owner. -/
def noticeStatus (s : Store Path) (invite : Invite) (id : String) : Option Value :=
  s.field (.invites invite.listOwnerId id) "inviteStatus"

/-- The notice tells whether the invitee is in the list. -/
def NoticeAgrees (s : Store Path) (invite : Invite) (id : String) : Prop :=
  (noticeStatus s invite id = some (.str "accepted") ↔
      Contributes s invite.placeListId invite.invitedUserId) ∧
    (noticeStatus s invite id = some (.str "declined") ↔
      ¬ Contributes s invite.placeListId invite.invitedUserId)

instance (s : Store Path) (invite : Invite) (id : String) :
    Decidable (NoticeAgrees s invite id) :=
  inferInstanceAs (Decidable (_ ∧ _))

/-- The answers to an invite. -/
inductive AnswerStart (invite : Invite) : AppState → AppState → App Unit → Prop
  | acceptInvite (st : AppState) :
      AnswerStart invite st st (InviteRepository.acceptInvite invite)
  | declineInvite (st : AppState) :
      AnswerStart invite st st (InviteRepository.declineInvite invite)

/-- A request is served, and is not a notice of refusal that replaces a
notice of acceptance. -/
def ServedInTime (invite : Invite) (id : String) (q : Req Path Listener) (st : AppState)
    (r : Except Err (Ans q)) (st' : AppState) : Prop :=
  Served q st r st' ∧
    (q = .write (answerWrite "declined" invite id) →
      noticeStatus st.store invite id ≠ some (.str "accepted"))

/-! ## Control points -/

/-- Where a call stands. -/
inductive AnswerPoint (u : String) where
  | accept
  | join
  | nameContributor (invitedUser : User) (h : invitedUser.id = some u)
  | linkContributor (invitedUser : User) (h : invitedUser.id = some u)
  | consumeAccepted
  | accepted
  | decline
  | consumeDeclined
  | declined

namespace AnswerPoint

open Fire

variable {u : String}

/-- What is left of the call. -/
def task (invite : Invite) (id : String) : AnswerPoint u → App Unit
  | .accept => InviteRepository.acceptInvite invite
  | .join =>
    rethrowing do
      let _ ← PlaceListRepository.addContributorToList
        invite.placeListId invite.invitedUserId
      let ref ← doc (.invites invite.invitedUserId) invite.inviteId
      delete ref
  | .nameContributor invitedUser _ =>
    rethrowing do
      let _ ← onFirebaseException
        (do
          update (.placeLists invite.placeListId)
            [("contributorIds", .arrayUnion [.ofString? invitedUser.id])]
          let ref ← doc .users invitedUser.id
          update ref [("placeListIds", .arrayUnion [.str invite.placeListId])]
          return some invitedUser)
        (return none)
      let ref ← doc (.invites invite.invitedUserId) invite.inviteId
      delete ref
  | .linkContributor invitedUser _ =>
    rethrowing do
      let _ ← onFirebaseException
        (do
          let ref ← doc .users invitedUser.id
          update ref [("placeListIds", .arrayUnion [.str invite.placeListId])]
          return some invitedUser)
        (return none)
      let ref ← doc (.invites invite.invitedUserId) invite.inviteId
      delete ref
  | .decline => InviteRepository.declineInvite invite
  | .consumeAccepted | .consumeDeclined =>
    rethrowing (delete (.invites invite.invitedUserId id))
  | .accepted | .declined => .ret ()

/-- The notice of acceptance has been written. -/
def Accepting : AnswerPoint u → Prop
  | .join | .nameContributor _ _ | .linkContributor _ _ | .consumeAccepted | .accepted => True
  | _ => False

/-- The notice of refusal has been written. -/
def Declining : AnswerPoint u → Prop
  | .consumeDeclined | .declined => True
  | _ => False

/-- The invitee has been put in the list. -/
def Joined : AnswerPoint u → Prop
  | .linkContributor _ _ | .consumeAccepted | .accepted => True
  | _ => False

theorem Joined.accepting {p : AnswerPoint u} (h : p.Joined) : p.Accepting := by
  cases p with
  | linkContributor | consumeAccepted | accepted => trivial
  | _ => exact h.elim

theorem Declining.not_accepting {p : AnswerPoint u} (h : p.Declining) : ¬ p.Accepting := by
  cases p with
  | consumeDeclined | declined => exact fun hacc => hacc
  | _ => exact h.elim

/-- A call that has ended has given its answer. -/
theorem answered_of_ended {invite : Invite} {id : String} {p : AnswerPoint u}
    (hid : invite.inviteId = some id) (h : (p.task invite id).Ended) :
    p.Joined ∨ p.Declining := by
  cases p with
  | accepted => exact .inl trivial
  | declined => exact .inr trivial
  | nameContributor invitedUser hu =>
    obtain ⟨_, _, _, _, _, _⟩ := invitedUser
    cases hu
    exact h.elim
  | linkContributor invitedUser hu =>
    obtain ⟨_, _, _, _, _, _⟩ := invitedUser
    cases hu
    exact h.elim
  | accept =>
    unfold task InviteRepository.acceptInvite at h
    rw [hid] at h
    exact h.elim
  | decline =>
    unfold task InviteRepository.declineInvite at h
    rw [hid] at h
    exact h.elim
  | _ => exact h.elim

end AnswerPoint

/-- What a call can do at each control point. -/
inductive AnswerAdv (invite : Invite) (id : String) :
    AppState → AnswerPoint invite.invitedUserId → AppState →
      AnswerPoint invite.invitedUserId → Prop
  | accept {st : AppState} {s' : Store Path} :
      (answerWrite "accepted" invite id).apply st.store = some s' →
      AnswerAdv invite id st .accept (st.commit (answerWrite "accepted" invite id) s') .join
  | arrive {st : AppState} {invitedUser : User} (h : invitedUser.id = some _) :
      AnswerAdv invite id st .join st (.nameContributor invitedUser h)
  | unreadable {st : AppState} :
      ¬ Readable st.store invite.invitedUserId →
      AnswerAdv invite id st .join st .consumeAccepted
  | nameContributor {st : AppState} {invitedUser : User} {s' : Store Path}
      (h : invitedUser.id = some _) :
      (nameContributorWrite invite.placeListId invite.invitedUserId).apply st.store =
        some s' →
      AnswerAdv invite id st (.nameContributor invitedUser h)
        (st.commit (nameContributorWrite invite.placeListId invite.invitedUserId) s')
        (.linkContributor invitedUser h)
  | linkContributor {st : AppState} {invitedUser : User} {s' : Store Path}
      (h : invitedUser.id = some _) :
      (linkOwnerWrite invite.invitedUserId invite.placeListId).apply st.store = some s' →
      AnswerAdv invite id st (.linkContributor invitedUser h)
        (st.commit (linkOwnerWrite invite.invitedUserId invite.placeListId) s')
        .consumeAccepted
  | consumeAccepted {st : AppState} {s' : Store Path} :
      (consumeWrite invite id).apply st.store = some s' →
      AnswerAdv invite id st .consumeAccepted (st.commit (consumeWrite invite id) s')
        .accepted
  | decline {st : AppState} {s' : Store Path} :
      noticeStatus st.store invite id ≠ some (.str "accepted") →
      (answerWrite "declined" invite id).apply st.store = some s' →
      AnswerAdv invite id st .decline (st.commit (answerWrite "declined" invite id) s')
        .consumeDeclined
  | consumeDeclined {st : AppState} {s' : Store Path} :
      (consumeWrite invite id).apply st.store = some s' →
      AnswerAdv invite id st .consumeDeclined (st.commit (consumeWrite invite id) s')
        .declined

section Answers

variable {invite : Invite} {id : String}

/-- Every step of a call is one of `AnswerAdv`. -/
theorem AnswerPoint.adv_of_step (hid : invite.inviteId = some id) {st st' : AppState}
    {p : AnswerPoint invite.invitedUserId} {t' : App Unit}
    (h : Prog.Step (ServedInTime invite id) st (p.task invite id) st' t') :
    ∃ p' : AnswerPoint invite.invitedUserId, t' = p'.task invite id ∧
      AnswerAdv invite id st p st' p' := by
  cases p with
  | accept =>
    unfold task InviteRepository.acceptInvite at h
    rw [hid] at h
    obtain ⟨r, ⟨hr, -⟩, rfl⟩ := h
    obtain ⟨s', hs', rfl, rfl⟩ := served_write.mp hr
    refine ⟨.join, ?_, .accept hs'⟩
    unfold task
    rw [hid]
    rfl
  | join =>
    unfold task at h
    rw [hid] at h
    obtain ⟨r, ⟨hr, -⟩, rfl⟩ := h
    obtain ⟨rfl, rfl⟩ := served_snapshot.mp hr
    cases hu : User.fromSnapshot invite.invitedUserId
        (st'.store.get (.users invite.invitedUserId)) with
    | error e =>
      have hnot : ¬ Readable st'.store invite.invitedUserId := by
        rintro ⟨user, hread⟩
        rw [hu] at hread
        cases hread
      refine ⟨.consumeAccepted, ?_, .unreadable hnot⟩
      simp only [Prog.ofExcept, Prog.bind, Prog.bind_eq,
        PlaceListRepository.userArrived, Option.bind_some, hu, Except.toOption]
      rfl
    | ok invitedUser =>
      have huid := (User.fromSnapshot_ok hu).1
      refine ⟨.nameContributor invitedUser huid, ?_, .arrive huid⟩
      unfold task
      rw [hid]
      simp only [Prog.ofExcept, Prog.bind, Prog.bind_eq,
        PlaceListRepository.userArrived, Option.bind_some, hu, Except.toOption]
      rfl
  | nameContributor invitedUser huid =>
    obtain ⟨_, _, _, _, _, _⟩ := invitedUser
    cases huid
    unfold task at h
    rw [hid] at h
    obtain ⟨r, ⟨hr, -⟩, rfl⟩ := h
    obtain ⟨s', hs', rfl, rfl⟩ := served_write.mp hr
    refine ⟨.linkContributor _ rfl, ?_, .nameContributor rfl hs'⟩
    unfold task
    rw [hid]
    rfl
  | linkContributor invitedUser huid =>
    obtain ⟨_, _, _, _, _, _⟩ := invitedUser
    cases huid
    unfold task at h
    rw [hid] at h
    obtain ⟨r, ⟨hr, -⟩, rfl⟩ := h
    obtain ⟨s', hs', rfl, rfl⟩ := served_write.mp hr
    exact ⟨.consumeAccepted, rfl, .linkContributor rfl hs'⟩
  | consumeAccepted =>
    obtain ⟨r, ⟨hr, -⟩, rfl⟩ := h
    obtain ⟨s', hs', rfl, rfl⟩ := served_write.mp hr
    exact ⟨.accepted, rfl, .consumeAccepted hs'⟩
  | decline =>
    unfold task InviteRepository.declineInvite at h
    rw [hid] at h
    obtain ⟨r, ⟨hr, htime⟩, rfl⟩ := h
    obtain ⟨s', hs', rfl, rfl⟩ := served_write.mp hr
    exact ⟨.consumeDeclined, rfl, .decline (htime rfl) hs'⟩
  | consumeDeclined =>
    obtain ⟨r, ⟨hr, -⟩, rfl⟩ := h
    obtain ⟨s', hs', rfl, rfl⟩ := served_write.mp hr
    exact ⟨.declined, rfl, .consumeDeclined hs'⟩
  | accepted => exact h.elim
  | declined => exact h.elim

theorem AnswerStart.point {st st' : AppState} {t : App Unit}
    (h : AnswerStart invite st st' t) :
    ∃ p : AnswerPoint invite.invitedUserId, t = p.task invite id ∧ st' = st ∧
      (p = .accept ∨ p = .decline) := by
  cases h with
  | acceptInvite => exact ⟨.accept, rfl, rfl, .inl rfl⟩
  | declineInvite => exact ⟨.decline, rfl, rfl, .inr rfl⟩

/-! ## What the notice says -/

/-- The notice says what has been answered, acceptance first, and the
invitee is in the list once a call has put them there. -/
structure Noticed (invite : Invite) (id : String)
    (c : Pool AppState (AnswerPoint invite.invitedUserId)) : Prop where
  readable : Readable c.state.store invite.invitedUserId
  accepted : (∃ p ∈ c.threads, p.Accepting) →
    noticeStatus c.state.store invite id = some (.str "accepted")
  declined : (∃ p ∈ c.threads, p.Declining) →
    noticeStatus c.state.store invite id = some (.str "declined") ∨
      ∃ p ∈ c.threads, p.Accepting
  joined : Contributes c.state.store invite.placeListId invite.invitedUserId ↔
    ∃ p ∈ c.threads, p.Joined

/-- A notice that has been written can be read. -/
theorem noticeStatus_answerWrite {status : String} {s s' : Store Path}
    (h : (answerWrite status invite id).apply s = some s') :
    noticeStatus s' invite id = some (.str status) := by
  cases h
  rw [noticeStatus, Store.field_eq (Store.get_put_self s _ _), Doc.get?_ofList]
  rfl

/-- What some call of a pool satisfies, when one of them is looked at. -/
theorem exists_mem_middle {α : Type} {Q : α → Prop} {pre post : List α} {x : α} :
    (∃ y ∈ pre ++ x :: post, Q y) ↔ Q x ∨ ∃ y ∈ pre ++ post, Q y := by
  simp only [List.mem_append, List.mem_cons, or_and_right, exists_or, exists_eq_left]
  exact or_left_comm

/-- A step that leaves the notice and the membership, and the answer of its
call. -/
theorem Noticed.frame {st st' : AppState}
    {pre post : List (AnswerPoint invite.invitedUserId)}
    {p p' : AnswerPoint invite.invitedUserId}
    (h : Noticed invite id ⟨st, pre ++ p :: post⟩)
    (hread : Readable st'.store invite.invitedUserId)
    (hnotice : noticeStatus st'.store invite id = noticeStatus st.store invite id)
    (hcon : Contributes st'.store invite.placeListId invite.invitedUserId ↔
      Contributes st.store invite.placeListId invite.invitedUserId)
    (hacc : p'.Accepting ↔ p.Accepting) (hdec : p'.Declining ↔ p.Declining)
    (hjoin : p'.Joined ↔ p.Joined) : Noticed invite id ⟨st', pre ++ p' :: post⟩ := by
  obtain ⟨-, haccepted, hdeclined, hjoined⟩ := h
  simp only [exists_mem_middle] at haccepted hdeclined hjoined
  refine ⟨hread, ?_, ?_, ?_⟩
  · simp only [exists_mem_middle, hnotice, hacc]
    exact haccepted
  · simp only [exists_mem_middle, hnotice, hacc, hdec]
    exact hdeclined
  · simp only [exists_mem_middle, hcon, hjoin]
    exact hjoined

/-- The inbox of the invitee is not the one that the notice is in. -/
theorem noticeStatus_consumeWrite (hself : invite.listOwnerId ≠ invite.invitedUserId)
    {s s' : Store Path} (h : (consumeWrite invite id).apply s = some s') :
    noticeStatus s' invite id = noticeStatus s invite id := by
  have hne : Path.invites invite.listOwnerId id ≠ .invites invite.invitedUserId id := by
    simpa using hself
  exact Store.field_congr (Write.get_of_ne h hne) _

/-- A write to an inbox tells nothing about members. -/
theorem members_of_inbox_write {w : Write Path} {s s' : Store Path} {v j : String}
    (h : w.apply s = some s') (hw : w.path = .invites v j) (l u : String) :
    (Readable s' u ↔ Readable s u) ∧ (Contributes s' l u ↔ Contributes s l u) := by
  have husers : s'.get (.users u) = s.get (.users u) :=
    Write.get_of_ne h (by rw [hw]; exact Path.noConfusion)
  have hlists : s'.get (.placeLists l) = s.get (.placeLists l) :=
    Write.get_of_ne h (by rw [hw]; exact Path.noConfusion)
  exact ⟨by rw [Readable, husers, Readable], (membership_congr hlists husers).1⟩

theorem Noticed.adv (hself : invite.listOwnerId ≠ invite.invitedUserId) {st st' : AppState}
    {pre post : List (AnswerPoint invite.invitedUserId)}
    {p p' : AnswerPoint invite.invitedUserId}
    (h : Noticed invite id ⟨st, pre ++ p :: post⟩) (hadv : AnswerAdv invite id st p st' p') :
    Noticed invite id ⟨st', pre ++ p' :: post⟩ := by
  cases hadv with
  | @accept s' hw =>
    obtain ⟨hread, hcon⟩ := members_of_inbox_write hw rfl invite.placeListId
      invite.invitedUserId
    obtain ⟨hreadable, -, -, hjoined⟩ := h
    refine ⟨hread.mpr hreadable, fun _ => noticeStatus_answerWrite hw, fun _ => ?_, ?_⟩
    · exact .inr (exists_mem_middle.mpr (.inl trivial))
    · rw [exists_mem_middle] at hjoined ⊢
      exact hcon.trans hjoined
  | arrive huid => exact h.frame h.readable rfl Iff.rfl Iff.rfl Iff.rfl Iff.rfl
  | unreadable hnot => exact absurd h.readable hnot
  | @nameContributor _ s' huid hw =>
    have husers : s'.get (.users invite.invitedUserId) =
        st.store.get (.users invite.invitedUserId) := Write.get_of_ne hw Path.noConfusion
    have hnotice : noticeStatus s' invite id = noticeStatus st.store invite id :=
      Store.field_congr (Write.get_of_ne hw Path.noConfusion) _
    have hcon : Contributes s' invite.placeListId invite.invitedUserId := by
      rw [Contributes, Write.mem_elemsAt_arrayUnion hw]
      simp
    obtain ⟨hreadable, haccepted, -, -⟩ := h
    refine ⟨?_, fun _ => ?_, fun _ => ?_, ?_⟩
    · show Readable s' invite.invitedUserId
      rw [Readable, husers]
      exact hreadable
    · show noticeStatus s' invite id = _
      rw [hnotice]
      exact haccepted (exists_mem_middle.mpr (.inl trivial))
    · exact .inr (exists_mem_middle.mpr (.inl trivial))
    · rw [exists_mem_middle]
      exact iff_of_true hcon (.inl trivial)
  | @linkContributor _ s' huid hw =>
    have hlists : s'.get (.placeLists invite.placeListId) =
        st.store.get (.placeLists invite.placeListId) := Write.get_of_ne hw Path.noConfusion
    refine h.frame ?_ ?_ ?_ Iff.rfl Iff.rfl Iff.rfl
    · exact Readable.update (fun ids => arrayUnion_strs ids _) hw h.readable
    · exact Store.field_congr (Write.get_of_ne hw Path.noConfusion) _
    · show Contributes s' _ _ ↔ Contributes st.store _ _
      rw [Contributes, Store.elemsAt_congr hlists, Contributes]
  | consumeAccepted hw =>
    obtain ⟨hread, hcon⟩ := members_of_inbox_write hw rfl invite.placeListId
      invite.invitedUserId
    exact h.frame (hread.mpr h.readable) (noticeStatus_consumeWrite hself hw) hcon
      Iff.rfl Iff.rfl Iff.rfl
  | @decline s' htime hw =>
    obtain ⟨hread, hcon⟩ := members_of_inbox_write hw rfl invite.placeListId
      invite.invitedUserId
    obtain ⟨hreadable, haccepted, -, hjoined⟩ := h
    rw [exists_mem_middle] at haccepted hjoined
    refine ⟨hread.mpr hreadable, fun hex => ?_, fun _ => .inl (noticeStatus_answerWrite hw),
      ?_⟩
    · -- the notice would have been one of acceptance before
      rw [exists_mem_middle] at hex
      exact absurd (haccepted (.inr (hex.resolve_left False.elim))) htime
    · rw [exists_mem_middle]
      exact hcon.trans hjoined
  | consumeDeclined hw =>
    obtain ⟨hread, hcon⟩ := members_of_inbox_write hw rfl invite.placeListId
      invite.invitedUserId
    exact h.frame (hread.mpr h.readable) (noticeStatus_consumeWrite hself hw) hcon
      Iff.rfl Iff.rfl Iff.rfl

theorem Noticed.start {st : AppState} {ps : List (AnswerPoint invite.invitedUserId)}
    {p : AnswerPoint invite.invitedUserId} (h : Noticed invite id ⟨st, ps⟩)
    (hp : p = .accept ∨ p = .decline) : Noticed invite id ⟨st, p :: ps⟩ := by
  have hnew : ¬ p.Accepting ∧ ¬ p.Declining ∧ ¬ p.Joined := by
    rcases hp with rfl | rfl <;> exact ⟨fun h => h, fun h => h, fun h => h⟩
  obtain ⟨hreadable, haccepted, hdeclined, hjoined⟩ := h
  obtain ⟨hacc, hdec, hjoin⟩ := hnew
  refine ⟨hreadable, ?_, ?_, ?_⟩
  · simpa only [List.exists_mem_cons_iff, hacc, false_or] using haccepted
  · simpa only [List.exists_mem_cons_iff, hacc, hdec, false_or] using hdeclined
  · simpa only [List.exists_mem_cons_iff, hjoin, false_or] using hjoined

/-- Any answers to an invite, under every interleaving in which no refusal
replaces a notice of acceptance: when at least one has been given and all
calls have ended, the notice tells whether the invitee is in the list. -/
theorem notice_agrees {s : Store Path} {c : Pool AppState (App Unit)}
    (hinbox : InInbox s invite id) (hread : Readable s invite.invitedUserId)
    (hself : invite.listOwnerId ≠ invite.invitedUserId)
    (hnew : ¬ Contributes s invite.placeListId invite.invitedUserId)
    (hrun : Run (AnswerStart invite) (Prog.Step (ServedInTime invite id))
      ⟨{ store := s }, []⟩ c)
    (hcalls : c.threads ≠ []) (hquiet : c.Quiet) : NoticeAgrees c.state.store invite id := by
  have hid : invite.inviteId = some id := (Invite.fromSnapshot_ok hinbox).1
  obtain ⟨ps, hps, hpoints⟩ : ∃ ps : List (AnswerPoint invite.invitedUserId),
      c.threads = ps.map (AnswerPoint.task invite id) ∧
        Run (fun st st' p => st' = st ∧ (p = .accept ∨ p = .decline))
          (AnswerAdv invite id) ⟨{ store := s }, []⟩ ⟨c.state, ps⟩ := by
    refine Reach.refines (AnswerPoint.task invite id) ?_ ?_ (fun _ _ _ => trivial) hrun
    · intro st st' t ht
      exact ht.point
    · intro st p st' t' ht
      exact AnswerPoint.adv_of_step hid ht
  have hnoticed : Noticed invite id ⟨c.state, ps⟩ := by
    refine hpoints.invariant ⟨hread, by simp, by simp, by simp [hnew]⟩ ?_
    intro d d' hd hs _
    cases hs with
    | start ts ht =>
      obtain ⟨rfl, hp⟩ := ht
      exact hd.start hp
    | adv pre post ht => exact hd.adv hself ht
  -- every call has given its answer
  have hall : ∀ p ∈ ps, p.Joined ∨ p.Declining := by
    intro p hp
    exact AnswerPoint.answered_of_ended hid (hquiet _ (hps ▸ List.mem_map_of_mem hp))
  obtain ⟨-, haccepted, hdeclined, hjoined⟩ := hnoticed
  dsimp only at haccepted hdeclined hjoined
  by_cases hsome : ∃ p ∈ ps, p.Joined
  · have hacc : ∃ p ∈ ps, p.Accepting := by
      obtain ⟨p, hp, hj⟩ := hsome
      exact ⟨p, hp, hj.accepting⟩
    have hcon := hjoined.mpr hsome
    rw [NoticeAgrees, haccepted hacc]
    simp [hcon]
  · have hnone : ¬ ∃ p ∈ ps, p.Accepting := by
      rintro ⟨p, hp, hacc⟩
      rcases hall p hp with hj | hd
      · exact hsome ⟨p, hp, hj⟩
      · exact hd.not_accepting hacc
    have hdec : ∃ p ∈ ps, p.Declining := by
      obtain ⟨p, hp⟩ := List.exists_mem_of_ne_nil ps (by rintro rfl; exact hcalls hps)
      exact ⟨p, hp, (hall p hp).resolve_left fun hj => hsome ⟨p, hp, hj⟩⟩
    have hcon : ¬ Contributes c.state.store invite.placeListId invite.invitedUserId :=
      fun h => hsome (hjoined.mp h)
    rw [NoticeAgrees, (hdeclined hdec).resolve_right hnone]
    simp [hcon]

end Answers

/-- Whether a request is no refusal that comes too late, decided. -/
def timely (invite : Invite) (id : String) (q : Req Path Listener) (st : AppState) : Bool :=
  match q with
  | .write (.set _ d) =>
    d.get? "inviteStatus" ≠ some (.str "declined") ||
      noticeStatus st.store invite id ≠ some (.str "accepted")
  | _ => true

theorem servedInTime_of_serves (invite : Invite) (id : String) (o : Outcome)
    (q : Req Path Listener) (st : AppState)
    (h : (serves o q st && timely invite id q st) = true) :
    ServedInTime invite id q st (serve o q st).1 (serve o q st).2 := by
  rw [Bool.and_eq_true] at h
  refine ⟨served_of_serves o q st h.1, ?_⟩
  rintro rfl
  have hdeclined : (Doc.ofList (invite.copyWith
      { inviteStatus := some "declined" }).toDocument).get? "inviteStatus" =
        some (.str "declined") := by
    rw [Doc.get?_ofList]
    rfl
  have htimely := h.2
  simp only [timely, answerWrite, hdeclined] at htimely
  simpa using htimely

/-- A step of a call that answers in time. -/
def nextInTime (invite : Invite) (id : String) (o : Outcome) (st : AppState)
    (t : App Unit) : Option (AppState × App Unit) :=
  Prog.next serve (fun o q st => serves o q st && timely invite id q st) o st t

theorem step_of_nextInTime (invite : Invite) (id : String) (o : Outcome) (st : AppState)
    (t : App Unit) (st' : AppState) (t' : App Unit)
    (h : nextInTime invite id o st t = some (st', t')) :
    Prog.Step (ServedInTime invite id) st t st' t' :=
  Prog.step_of_next (servedInTime_of_serves invite id) h

/-- `bob` declines on one device and accepts on another. -/
theorem notice_agrees_bob :
    ∃ c : Pool AppState (App Unit), NoticeAgrees c.state.store bobsInvite "i1" ∧
      Contributes c.state.store "rome" "bob" := by
  have hplay : ∃ c : Pool AppState (App Unit),
      Run (AnswerStart bobsInvite) (Prog.Step (ServedInTime bobsInvite "i1"))
          ⟨{ store := bobInvited }, []⟩ c ∧
        (c.threads ≠ [] ∧ c.Quiet) ∧ Contributes c.state.store "rome" "bob" := by
    refine Reach.exists_play
      [InviteRepository.acceptInvite bobsInvite, InviteRepository.declineInvite bobsInvite]
      [(1, {}), (0, {}), (1, {}), (0, {}), (0, {}), (0, {}), (0, {})]
      (fun _ => true) (step_of_nextInTime bobsInvite "i1") (fun _ _ => trivial) ?_
      (fun _ _ => trivial) (by decide)
    intro t ht
    simp only [List.mem_cons, List.not_mem_nil, or_false] at ht
    rcases ht with rfl | rfl
    · exact .acceptInvite _
    · exact .declineInvite _
  obtain ⟨c, hrun, ⟨hcalls, hquiet⟩, hbob⟩ := hplay
  have hread : Readable bobInvited "bob" := by
    have hdoc : bobInvited.get (.users "bob") = some (userDoc "bob" []) := by
      simp [bobInvited, Store.get_ofList_cons]
    rw [Readable, hdoc]
    exact userDoc_readable "bob" []
  exact ⟨c, notice_agrees bobInvited_inInbox hread (by decide) (by decide) hrun hcalls hquiet,
    hbob⟩

/-- `bob` taps accept and then decline, and the refusal is noticed after the
acceptance: `ada` is told that `bob` has declined, who is in the list. -/
theorem notice_disagrees :
    ¬ ∀ (s : Store Path) (invite : Invite) (id : String) (c : Pool AppState (App Unit)),
      InInbox s invite id → ¬ Contributes s invite.placeListId invite.invitedUserId →
      Run (AnswerStart invite) (Prog.Step Served) ⟨{ store := s }, []⟩ c →
      c.threads ≠ [] → c.Quiet → NoticeAgrees c.state.store invite id := by
  intro h
  have hplay : ∃ c : Pool AppState (App Unit),
      Run (AnswerStart bobsInvite) (Prog.Step Served) ⟨{ store := bobInvited }, []⟩ c ∧
        (c.threads ≠ [] ∧ c.Quiet) ∧ ¬ NoticeAgrees c.state.store bobsInvite "i1" := by
    refine Reach.exists_play
      [InviteRepository.acceptInvite bobsInvite, InviteRepository.declineInvite bobsInvite]
      [(0, {}), (1, {}), (0, {}), (1, {}), (0, {}), (0, {}), (0, {})]
      (fun _ => true) step_of_nextServed (fun _ _ => trivial) ?_ (fun _ _ => trivial)
      (by decide)
    intro t ht
    simp only [List.mem_cons, List.not_mem_nil, or_false] at ht
    rcases ht with rfl | rfl
    · exact .acceptInvite _
    · exact .declineInvite _
  obtain ⟨c, hrun, ⟨hcalls, hquiet⟩, hnot⟩ := hplay
  exact hnot (h bobInvited bobsInvite "i1" c bobInvited_inInbox (by decide) hrun hcalls
    hquiet)

end GottaGo
