/-
GottaGo.Invites.Accept — whether an invite that has been consumed has been
recorded, when requests of `acceptInvite` fail or come late.

`addContributorToList` never throws. That it has not recorded the
membership it says by returning `null` (`addContributorToList_eval`), and
`acceptInvite` does not look at what it returns: it goes on and deletes
the invite. A notice that cannot be written, or an invite that cannot be
deleted, does keep the invite.

`acceptInvite_consumes_iff` puts these together for every choice of what
fails. `acceptInvite_loses` is the smallest loss: the user's snapshot
comes after the wait.
-/
import GottaGo.Membership.Agreement
import GottaGo.Repository.Invites

namespace GottaGo

open GottaGo.Async GottaGo.Firestore

/-! ## What `addContributorToList` records -/

section Records

variable (π : Req Path Listener → Outcome) (s : Store Path) (l u : String)

/-- The user's snapshot comes before the wait is over and can be read. -/
def Arrives : Prop :=
  (π (.snapshot (.users u))).fault = false ∧ (π (.snapshot (.users u))).late = false ∧
    ∃ invitedUser, User.fromSnapshot u (s.get (.users u)) = .ok invitedUser

/-- The list's half of the membership is written. -/
def ListRecords : Prop :=
  Arrives π s u ∧ (s.get (.placeLists l)).isSome ∧
    (π (.write (nameContributorWrite l u))).fault = false

/-- The user's half of the membership is written. -/
def UserRecords : Prop :=
  ListRecords π s l u ∧ (π (.write (linkOwnerWrite u l))).fault = false

/-- Each half of the membership is there before the call or written by it. -/
def Joins : Prop :=
  (Contributes s l u ∨ ListRecords π s l u) ∧ (HasList s u l ∨ UserRecords π s l u)

end Records

/-- The two sides of a membership are read from two documents. -/
theorem membership_congr {s s' : Store Path} {l u : String}
    (hl : s'.get (.placeLists l) = s.get (.placeLists l))
    (hu : s'.get (.users u) = s.get (.users u)) :
    (Contributes s' l u ↔ Contributes s l u) ∧ (HasList s' u l ↔ HasList s u l) := by
  rw [Contributes, Store.elemsAt_congr hl, HasList, Store.elemsAt_congr hu]
  exact ⟨Iff.rfl, Iff.rfl⟩

theorem joins_congr {π : Req Path Listener → Outcome} {s s' : Store Path} {l u : String}
    (hl : s'.get (.placeLists l) = s.get (.placeLists l))
    (hu : s'.get (.users u) = s.get (.users u)) : Joins π s' l u ↔ Joins π s l u := by
  obtain ⟨hc, hh⟩ := membership_congr hl hu
  unfold Joins UserRecords ListRecords Arrives
  rw [hc, hh, hl, hu]

section Add

variable {π : Req Path Listener → Outcome} {l u : String}

/-- What has arrived when the wait is over is the user, or nothing. -/
theorem userArrived_eval (st : AppState) :
    ∃ snap, Prog.eval (serveBy π) (Fire.snapshot (.users u)) st = (.ok snap, st) ∧
      ((¬ Arrives π st.store u ∧ PlaceListRepository.userArrived u snap = none) ∨
        ∃ invitedUser, Arrives π st.store u ∧ invitedUser.id = some u ∧
          PlaceListRepository.userArrived u snap = some invitedUser) := by
  refine ⟨_, eval_snapshot st _, ?_⟩
  unfold Arrives PlaceListRepository.userArrived
  cases hf : (π (.snapshot (.users u))).fault with
  | true => simp
  | false =>
    cases hl : (π (.snapshot (.users u))).late with
    | true => simp
    | false =>
      cases hu : User.fromSnapshot u (st.store.get (.users u)) with
      | error e => simp [hu, Except.toOption]
      | ok invitedUser =>
        have hid := (User.fromSnapshot_ok hu).1
        simp [hu, hid, Except.toOption]

/-- The call after the wait, when the user has arrived. -/
theorem addContributorToList_of_some {invitedUser : User} {snap : Option (Option Doc)}
    {st : AppState} (hid : invitedUser.id = some u)
    (hsnap : Prog.eval (serveBy π) (Fire.snapshot (.users u)) st = (.ok snap, st))
    (hu : PlaceListRepository.userArrived u snap = some invitedUser) :
    Prog.eval (serveBy π) (PlaceListRepository.addContributorToList l u) st =
      Prog.eval (serveBy π) (Fire.onFirebaseException
        ((Prog.await (.write (nameContributorWrite l u))).bind fun _ =>
          (Prog.await (.write (linkOwnerWrite u l))).bind fun _ =>
            .ret (some invitedUser))
        (.ret none)) st := by
  obtain ⟨_, _, _, _, _, _⟩ := invitedUser
  cases hid
  unfold PlaceListRepository.addContributorToList Fire.onFirebaseException
  rw [Prog.eval_tryCatch, Prog.bind_eq, Prog.eval_bind, hsnap]
  simp only [hu]
  rw [Prog.eval_tryCatch]
  rfl

/-- The three ways the call can go: it writes neither half, the list's half
only, or both. -/
theorem addContributorToList_cases (st : AppState) :
    ∃ r st', Prog.eval (serveBy π) (PlaceListRepository.addContributorToList l u) st =
        (.ok r, st') ∧
      ((¬ ListRecords π st.store l u ∧ r = none ∧ st' = st) ∨
        ∃ s₁, ListRecords π st.store l u ∧
          (nameContributorWrite l u).apply st.store = some s₁ ∧
          ((¬ UserRecords π st.store l u ∧ r = none ∧ st'.store = s₁) ∨
            (UserRecords π st.store l u ∧ r.isSome ∧
              (linkOwnerWrite u l).apply s₁ = some st'.store))) := by
  obtain ⟨snap, hsnap, ⟨hnot, hu⟩ | ⟨invitedUser, harrives, hid, hu⟩⟩ :=
    userArrived_eval (π := π) (u := u) st
  · -- nothing has arrived
    have hl : ¬ ListRecords π st.store l u := fun h => hnot h.1
    refine ⟨none, st, ?_, .inl ⟨hl, rfl, rfl⟩⟩
    unfold PlaceListRepository.addContributorToList Fire.onFirebaseException
    rw [Prog.eval_tryCatch, Prog.bind_eq, Prog.eval_bind, hsnap]
    simp [hu]
  · rw [addContributorToList_of_some hid hsnap hu, Fire.onFirebaseException,
      Prog.eval_tryCatch, Prog.eval_bind]
    have huser : (st.store.get (.users u)).isSome := by
      obtain ⟨-, -, _, hread⟩ := harrives
      obtain ⟨-, d, -, hd, -⟩ := User.fromSnapshot_ok hread
      rw [hd, Option.isSome_some]
    obtain ⟨hok, s₁, hs₁, heval₁⟩ | ⟨hnot, heval₁⟩ := eval_update_cases (π := π) st
      (.placeLists l) [("contributorIds", .arrayUnion [.str u])]
    · have hlist : ListRecords π st.store l u := ⟨harrives, hok⟩
      have hstay : (s₁.get (.users u)).isSome := by
        rw [Write.get_update_isSome hs₁, huser]
      have hname : Prog.eval (serveBy π) (Prog.await (.write (nameContributorWrite l u))) st =
          (.ok (), st.commit (nameContributorWrite l u) s₁) := heval₁
      rw [hname]
      dsimp only
      rw [Prog.eval_bind]
      obtain ⟨⟨-, hf⟩, s₂, hs₂, heval₂⟩ | ⟨hnot, heval₂⟩ := eval_update_cases (π := π)
        (st.commit (nameContributorWrite l u) s₁) (.users u)
        [("placeListIds", .arrayUnion [.str l])]
      · have hlink : Prog.eval (serveBy π) (Prog.await (.write (linkOwnerWrite u l)))
            (st.commit (nameContributorWrite l u) s₁) = (.ok (), _) := heval₂
        rw [hlink]
        exact ⟨_, _, rfl, .inr ⟨s₁, hlist, hs₁, .inr ⟨⟨hlist, hf⟩, rfl, hs₂⟩⟩⟩
      · have hlink : Prog.eval (serveBy π) (Prog.await (.write (linkOwnerWrite u l)))
            (st.commit (nameContributorWrite l u) s₁) = (.error .firebase, _) := heval₂
        have huser : ¬ UserRecords π st.store l u := fun h => hnot ⟨hstay, h.2⟩
        rw [hlink]
        exact ⟨_, _, rfl, .inr ⟨s₁, hlist, hs₁, .inl ⟨huser, rfl, rfl⟩⟩⟩
    · have hname : Prog.eval (serveBy π) (Prog.await (.write (nameContributorWrite l u))) st =
          (.error .firebase, st) := heval₁
      have hlist : ¬ ListRecords π st.store l u := fun h => hnot h.2
      rw [hname]
      exact ⟨_, _, rfl, .inl ⟨hlist, rfl, rfl⟩⟩

/-- `addContributorToList` always returns. It returns the user just when it
has written both halves of the membership, and a `null` may stand for
either half missing. -/
theorem addContributorToList_eval (st : AppState) :
    ∃ r st', Prog.eval (serveBy π) (PlaceListRepository.addContributorToList l u) st =
        (.ok r, st') ∧
      (r.isSome ↔ UserRecords π st.store l u) ∧
      (Contributes st'.store l u ↔
        Contributes st.store l u ∨ ListRecords π st.store l u) ∧
      (HasList st'.store u l ↔ HasList st.store u l ∨ UserRecords π st.store l u) ∧
      ∀ p, p ≠ .placeLists l → p ≠ .users u → st'.store.get p = st.store.get p := by
  obtain ⟨r, st', heval, ⟨hl, rfl, rfl⟩ | ⟨s₁, hl, hs₁, hcases⟩⟩ :=
    addContributorToList_cases (π := π) (l := l) (u := u) st
  · have hu : ¬ UserRecords π st'.store l u := fun h => hl h.1
    exact ⟨none, st', heval, by simp [hu], by simp [hl], by simp [hu], fun _ _ _ => rfl⟩
  · have hnamed : Contributes s₁ l u := by
      rw [Contributes, Write.mem_elemsAt_arrayUnion hs₁]
      simp
    have hside : HasList s₁ u l ↔ HasList st.store u l :=
      hasList_of_list_write hs₁ rfl u l
    obtain ⟨hu, rfl, rfl⟩ | ⟨hu, hr, hs₂⟩ := hcases
    · refine ⟨none, st', heval, by simp [hu], by simp [hnamed, hl], by simp [hside, hu], ?_⟩
      intro p hp _
      exact Write.get_of_ne hs₁ hp
    · have hstill : Contributes st'.store l u := by
        rw [Contributes, Store.elemsAt_congr (Write.get_of_ne hs₂ Path.noConfusion)]
        exact hnamed
      have hlinked : HasList st'.store u l := (hasList_arrayUnion hs₂ u l).mpr (.inr ⟨rfl, rfl⟩)
      refine ⟨r, st', heval, by simp [hu, hr], by simp [hstill, hl], by simp [hlinked, hu], ?_⟩
      intro p hlp hup
      rw [Write.get_of_ne hs₂ hup, Write.get_of_ne hs₁ hlp]

end Add

/-! ## What `acceptInvite` consumes -/

/-- The invite lies in its invitee's inbox as document `id`. -/
def InInbox (s : Store Path) (invite : Invite) (id : String) : Prop :=
  Invite.fromSnapshot id (s.get (.invites invite.invitedUserId id)) = .ok invite

/-- The notice of acceptance in the inbox of the list's owner. -/
def noticeWrite (invite : Invite) (id : String) : Write Path :=
  .set (.invites invite.listOwnerId id)
    (Doc.ofList (invite.copyWith { inviteStatus := some "accepted" }).toDocument)

/-- The deletion of the invite. -/
def consumeWrite (invite : Invite) (id : String) : Write Path :=
  .delete (.invites invite.invitedUserId id)

section Accept

variable {π : Req Path Listener → Outcome} {invite : Invite} {id : String}

/-- The call is the notice, the attempt to join, and the deletion. -/
theorem acceptInvite_eval (st : AppState) (hid : invite.inviteId = some id) :
    (Prog.eval (serveBy π) (InviteRepository.acceptInvite invite) st).2 =
      (Prog.eval (serveBy π) (do
        Prog.await (Req.write (noticeWrite invite id))
        let _ ← PlaceListRepository.addContributorToList
          invite.placeListId invite.invitedUserId
        Prog.await (Req.write (consumeWrite invite id)) : App Unit) st).2 := by
  rw [InviteRepository.acceptInvite, eval_rethrowing_snd, hid]
  rfl

/-- The invite stays if the notice or the deletion fails. Otherwise it is
gone, and both sides have the membership just when the user joins. -/
theorem acceptInvite_cases (st : AppState) (h : InInbox st.store invite id) :
    ∃ s', (Prog.eval (serveBy π) (InviteRepository.acceptInvite invite) st).2.store = s' ∧
      ((((π (.write (noticeWrite invite id))).fault = true ∨
            (π (.write (consumeWrite invite id))).fault = true) ∧
          s'.get (.invites invite.invitedUserId id) ≠ none) ∨
        ((π (.write (noticeWrite invite id))).fault = false ∧
          (π (.write (consumeWrite invite id))).fault = false ∧
          s'.get (.invites invite.invitedUserId id) = none ∧
          (Contributes s' invite.placeListId invite.invitedUserId ∧
              HasList s' invite.invitedUserId invite.placeListId ↔
            Joins π st.store invite.placeListId invite.invitedUserId))) := by
  obtain ⟨hid, hin⟩ := Invite.fromSnapshot_ok h
  refine ⟨_, rfl, ?_⟩
  rw [acceptInvite_eval st hid, Prog.bind_eq, Prog.eval_bind]
  cases hn : (π (.write (noticeWrite invite id))).fault with
  | true =>
    rw [eval_write_of_fault st hn]
    exact .inl ⟨.inl rfl, Option.isSome_iff_ne_none.mp hin⟩
  | false =>
    rw [eval_write_of_some st hn (Write.apply_set _ _ _)]
    -- the notice is in the owner's inbox, who may be the invitee
    set s₁ := st.store.put (.invites invite.listOwnerId id) (Doc.ofList
      (invite.copyWith { inviteStatus := some "accepted" }).toDocument) with hs₁
    have hin₁ : s₁.get (.invites invite.invitedUserId id) ≠ none := by
      rw [hs₁, Store.get_put]
      split
      · simp
      · exact Option.isSome_iff_ne_none.mp hin
    have husers : ∀ u, s₁.get (.users u) = st.store.get (.users u) :=
      fun u => Store.get_put_of_ne _ _ Path.noConfusion
    have hlists : ∀ l, s₁.get (.placeLists l) = st.store.get (.placeLists l) :=
      fun l => Store.get_put_of_ne _ _ Path.noConfusion
    obtain ⟨r, st₂, heval, -, hlist, huser, hframe⟩ := addContributorToList_eval (π := π)
      (l := invite.placeListId) (u := invite.invitedUserId)
      (st.commit (noticeWrite invite id) s₁)
    have hin₂ : st₂.store.get (.invites invite.invitedUserId id) ≠ none := by
      rw [hframe _ Path.noConfusion Path.noConfusion]
      exact hin₁
    dsimp only
    rw [Prog.bind_eq, Prog.eval_bind, heval]
    cases hc : (π (.write (consumeWrite invite id))).fault with
    | true =>
      dsimp only
      rw [eval_write_of_fault st₂ hc]
      exact .inl ⟨.inr rfl, hin₂⟩
    | false =>
      dsimp only
      rw [eval_write_of_some st₂ hc (Write.apply_delete _ _)]
      refine .inr ⟨rfl, rfl, Store.get_del_self _ _, ?_⟩
      obtain ⟨hcontributes, hhas⟩ := membership_congr
        (Store.get_del_of_ne st₂.store (p := .invites invite.invitedUserId id)
          (q := .placeLists invite.placeListId) Path.noConfusion)
        (Store.get_del_of_ne st₂.store (q := .users invite.invitedUserId) Path.noConfusion)
      rw [State.commit_store] at hlist huser
      rw [← joins_congr (hlists _) (husers _), Joins, ← hlist, ← huser]
      exact and_congr hcontributes hhas

/-- For every choice of what fails or comes late: a consumed invite leaves
the membership on both sides, just when the notice or the deletion failed
or the user joined. -/
theorem acceptInvite_consumes_iff (π : Req Path Listener → Outcome) (st : AppState)
    {invite : Invite} {id : String} (h : InInbox st.store invite id) :
    ((Prog.eval (serveBy π) (InviteRepository.acceptInvite invite) st).2.store.get
          (.invites invite.invitedUserId id) = none →
        Contributes (Prog.eval (serveBy π) (InviteRepository.acceptInvite invite) st).2.store
            invite.placeListId invite.invitedUserId ∧
          HasList (Prog.eval (serveBy π) (InviteRepository.acceptInvite invite) st).2.store
            invite.invitedUserId invite.placeListId) ↔
      (π (.write (noticeWrite invite id))).fault = true ∨
        (π (.write (consumeWrite invite id))).fault = true ∨
          Joins π st.store invite.placeListId invite.invitedUserId := by
  obtain ⟨s', hs', ⟨hfails, hkept⟩ | ⟨hn, hc, hgone, hjoins⟩⟩ :=
    acceptInvite_cases (π := π) st h
  · rw [hs']
    constructor
    · intro _
      exact hfails.imp_right .inl
    · intro _ hgone
      exact absurd hgone hkept
  · rw [hs', hn, hc, ← hjoins]
    simp [hgone]

end Accept

/-- The invite of `bob` to the list of `ada`. -/
def bobsInvite : Invite where
  inviteId := some "i1"
  invitedUserId := "bob"
  listOwnerId := "ada"
  placeListId := "rome"
  inviteStatus := "sent"
  placeListName := "Rome"
  inviterName := "ada"
  inviteeName := "bob"

/-- `bob` has been invited and has not answered. -/
def bobInvited : Store Path :=
  .ofList [(.placeLists "rome", listDoc "ada" []), (.users "ada", userDoc "ada" ["rome"]),
    (.users "bob", userDoc "bob" []),
    (.invites "bob" "i1", Doc.ofList bobsInvite.toDocument)]

theorem bobInvited_inInbox : InInbox bobInvited bobsInvite "i1" := by
  have hdoc : bobInvited.get (.invites "bob" "i1") =
      some (Doc.ofList bobsInvite.toDocument) := by
    simp [bobInvited, Store.get_ofList_cons]
  unfold InInbox
  rw [show bobsInvite.invitedUserId = "bob" from rfl, hdoc, Invite.fromSnapshot_toDocument]
  rfl

/-- Nothing fails, and the invite is consumed by a membership. -/
theorem acceptInvite_joins_bob :
    Contributes (Prog.eval (serveBy fun _ => {}) (InviteRepository.acceptInvite bobsInvite)
      { store := bobInvited }).2.store "rome" "bob" := by
  have hiff := acceptInvite_consumes_iff (fun _ => {}) { store := bobInvited }
    bobInvited_inInbox
  have harrives : Arrives (fun _ => {}) bobInvited "bob" := by
    have hdoc : bobInvited.get (.users "bob") = some (userDoc "bob" []) := by
      simp [bobInvited, Store.get_ofList_cons]
    rw [Arrives, hdoc]
    exact ⟨rfl, rfl, userDoc_readable "bob" []⟩
  have hlist : ListRecords (fun _ => {}) bobInvited "rome" "bob" :=
    ⟨harrives, by decide, rfl⟩
  have hjoins : Joins (fun _ => {}) bobInvited "rome" "bob" := ⟨.inr hlist, .inr ⟨hlist, rfl⟩⟩
  exact (hiff.mpr (.inr (.inr hjoins)) (by decide)).1

/-- The snapshot comes after the wait, and the invite is consumed by
nothing. -/
theorem acceptInvite_loses :
    ¬ ∀ (π : Req Path Listener → Outcome) (st : AppState) (invite : Invite) (id : String),
      InInbox st.store invite id →
      (Prog.eval (serveBy π) (InviteRepository.acceptInvite invite) st).2.store.get
          (.invites invite.invitedUserId id) = none →
        Contributes (Prog.eval (serveBy π) (InviteRepository.acceptInvite invite) st).2.store
            invite.placeListId invite.invitedUserId ∧
          HasList (Prog.eval (serveBy π) (InviteRepository.acceptInvite invite) st).2.store
            invite.invitedUserId invite.placeListId := by
  intro h
  have hlost := h (fun _ => { late := true }) { store := bobInvited } bobsInvite "i1"
    bobInvited_inInbox (by decide)
  exact absurd hlost.1 (by decide)

end GottaGo
