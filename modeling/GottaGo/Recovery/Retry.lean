/-
GottaGo.Recovery.Retry — an operation that was cut off after some of its
writes, and is made again.

The operations below write two to four documents. `script` lists the
writes of each; a call makes all of them just when the user it waits for
can be read and each write finds its document (`call_log`). Nothing is
written twice in two ways except an invite that a user has sent to
themselves, which is overwritten and then deleted, so the scripts are
retryable (`Firestore/Retry.lean`), and a cut-off call made again ends
where it would have ended (`retry_converges`).

A document id that is null asks Firestore for a new one, and a call made
again asks again. That is harmless for a document that is only deleted,
and not for one that is set: `retry_drawn` is an invite without an id,
whose notice is then stored twice.
-/
import GottaGo.Firestore.Retry
import GottaGo.Invites.LifeCycle
import GottaGo.Membership.Removal
import GottaGo.Visits.Moves

namespace GottaGo

open GottaGo.Async GottaGo.Firestore

/-! ## The operations -/

inductive Operation where
  | acceptInvite (invite : Invite)
  | declineInvite (invite : Invite)
  | deleteInvite (invite : Invite)
  | addContributorToList (placeListId userId : String)
  | removeContributorFromList (placeList : PlaceList) (userId : String)
  | removePlaceList (firebaseUser : AuthUser) (placeList : PlaceList)
  | markPlaceVisited (place : Place) (placeList : PlaceList)
  | restoreVisitedPlace (place : Place) (placeList : PlaceList)

/-- The list's half of leaving: the user is taken from `contributorIds`. -/
def dropContributorWrite (placeListId userId : String) : Write Path :=
  .update (.placeLists placeListId) [("contributorIds", .arrayRemove [.str userId])]

/-- The user's half of leaving a list, whose id may be null. -/
def unlinkWrite (uid : String) (placeListId : Option String) : Write Path :=
  .update (.users uid) [("placeListIds", .arrayRemove [.ofString? placeListId])]

namespace Operation

def call : Operation → App Unit
  | .acceptInvite invite => InviteRepository.acceptInvite invite
  | .declineInvite invite => InviteRepository.declineInvite invite
  | .deleteInvite invite => InviteRepository.deleteInvite invite
  | .addContributorToList placeListId userId =>
    (PlaceListRepository.addContributorToList placeListId userId).void
  | .removeContributorFromList placeList userId =>
    PlaceListRepository.removeContributorFromList placeList userId
  | .removePlaceList firebaseUser placeList =>
    PlaceListRepository.removePlaceList firebaseUser placeList
  | .markPlaceVisited place placeList => PlaceListRepository.markPlaceVisited place placeList
  | .restoreVisitedPlace place placeList =>
    PlaceListRepository.restoreVisitedPlace place placeList

/-- How many writes the operation has. The owner of a list deletes it. -/
def writeCount : Operation → Nat
  | .acceptInvite _ => 4
  | .removePlaceList firebaseUser placeList =>
    if placeList.listOwnerId = firebaseUser.uid then 2 else 1
  | _ => 2

/-- The documents that the operation sets are named by its arguments. -/
def Named : Operation → Prop
  | .acceptInvite invite => invite.inviteId.isSome
  | .declineInvite invite => invite.inviteId.isSome
  | .markPlaceVisited place placeList => place.placeId.isSome ∧ placeList.placeListId.isSome
  | .restoreVisitedPlace place placeList =>
    place.placeId.isSome ∧ placeList.placeListId.isSome
  | _ => True

/-- The user the operation waits for can be read. -/
def Ready (s : Store Path) : Operation → Prop
  | .acceptInvite invite => Readable s invite.invitedUserId
  | .addContributorToList _ userId => Readable s userId
  | .removeContributorFromList _ userId => Readable s userId
  | _ => True

/-- A move from subcollection `d`. -/
def moveScript (d : Bool) (x : String) (place : Place) (placeList : PlaceList) :
    List (Write Path) :=
  [.delete (slot d (placeList.placeListId.getD x) (place.placeId.getD x)),
    .set (slot (!d) (placeList.placeListId.getD x) (place.placeId.getD x))
      (Doc.ofList place.toDocument)]

/-- The writes of the operation. `x` and `y` are the ids drawn for
documents without one. -/
def script (x y : String) : Operation → List (Write Path)
  | .acceptInvite invite =>
    [answerWrite "accepted" invite (invite.inviteId.getD x),
      nameContributorWrite invite.placeListId invite.invitedUserId,
      linkOwnerWrite invite.invitedUserId invite.placeListId,
      .delete (.invites invite.invitedUserId (invite.inviteId.getD y))]
  | .declineInvite invite =>
    [answerWrite "declined" invite (invite.inviteId.getD x),
      .delete (.invites invite.invitedUserId (invite.inviteId.getD y))]
  | .deleteInvite invite =>
    [.delete (.invites invite.listOwnerId (invite.inviteId.getD x)),
      .delete (.invites invite.invitedUserId (invite.inviteId.getD y))]
  | .addContributorToList placeListId userId =>
    [nameContributorWrite placeListId userId, linkOwnerWrite userId placeListId]
  | .removeContributorFromList placeList userId =>
    [dropContributorWrite (placeList.placeListId.getD x) userId,
      unlinkWrite userId placeList.placeListId]
  | .removePlaceList firebaseUser placeList =>
    unlinkWrite firebaseUser.uid placeList.placeListId ::
      if placeList.listOwnerId = firebaseUser.uid
        then [.delete (.placeLists (placeList.placeListId.getD x))] else []
  | .markPlaceVisited place placeList => moveScript false x place placeList
  | .restoreVisitedPlace place placeList => moveScript true x place placeList

theorem length_script (x y : String) (op : Operation) :
    (op.script x y).length = op.writeCount := by
  cases op with
  | removePlaceList firebaseUser placeList =>
    by_cases h : placeList.listOwnerId = firebaseUser.uid <;> simp [script, writeCount, h]
  | _ => rfl

end Operation

/-! ## The writes of an uninterrupted call -/

section Call

variable (ids : Nat → String)

/-- What a call that makes all its writes adds to the log: the batch, which
can be done. -/
def Makes (t : App Unit) (ws : List (Write Path)) (ready : Prop) (ids : Nat → String)
    (st : AppState) : Prop :=
  ((ready ∧ (applyAll st.store ws).isSome) ∧
      (Prog.eval (supplied ids) t st).2.log = st.log ++ ws) ∨
    (¬ (ready ∧ (applyAll st.store ws).isSome) ∧
      (Prog.eval (supplied ids) t st).2.log.length ≠ st.log.length + ws.length)

/-- Writes in order make the batch. -/
theorem makes_inOrder (ws : List (Write Path)) (st : AppState) {t : App Unit}
    (h : (Prog.eval (supplied ids) t st).2 = (Prog.eval (supplied ids) (inOrder ws) st).2) :
    Makes t ws True ids st := by
  unfold Makes
  rw [h]
  obtain ⟨s', st', hs', heval, -, hlog⟩ | ⟨hnone, st', heval, hlen⟩ := inOrder_cases ids ws st
  · rw [heval, hs']
    exact .inl ⟨⟨trivial, rfl⟩, hlog⟩
  · rw [heval, hnone]
    exact .inr ⟨by simp, by simpa using Nat.ne_of_lt hlen⟩

theorem makes_two {w₁ w₂ : Write Path} (st : AppState) :
    Makes (rethrowing (do
      Prog.await (Req.write w₁)
      Prog.await (Req.write w₂))) [w₁, w₂] True ids st := by
  apply makes_inOrder
  rw [eval_rethrowing_snd, Prog.bind_eq, inOrder_two]

/-- A visit change, both ids known. -/
theorem makes_move (d : Bool) (x : String) {place : Place} {placeList : PlaceList}
    (hp : place.placeId.isSome) (hl : placeList.placeListId.isSome) (st : AppState) :
    Makes (PlaceListRepository.movePlace (slot d) (slot (!d)) place placeList)
      (Operation.moveScript d x place placeList) True ids st := by
  obtain ⟨p, hp⟩ := Option.isSome_iff_exists.mp hp
  obtain ⟨l, hl⟩ := Option.isSome_iff_exists.mp hl
  unfold Operation.moveScript
  rw [movePlace_eq hp hl, hp, hl]
  exact makes_two ids st

/-- The user who has arrived by the end of the wait. -/
theorem userArrived_supplied (u : String) (st : AppState) :
    ∃ snap, Prog.eval (supplied ids) (Fire.snapshot (.users u)) st = (.ok snap, st) ∧
      ((¬ Readable st.store u ∧ PlaceListRepository.userArrived u snap = none) ∨
        ∃ user, Readable st.store u ∧ user.id = some u ∧
          PlaceListRepository.userArrived u snap = some user) := by
  refine ⟨some (st.store.get (.users u)), rfl, ?_⟩
  unfold Readable PlaceListRepository.userArrived
  cases hu : User.fromSnapshot u (st.store.get (.users u)) with
  | error e => simp [hu, Except.toOption]
  | ok user =>
    have hid := (User.fromSnapshot_ok hu).1
    simp [hu, hid, Except.toOption]

/-- Told of the user, the call is the two writes that join the list, and the
user for an answer. -/
theorem eval_addContributorToList {σ : Type}
    {srv : (q : Req Path Listener) → σ → Except Err (Ans q) × σ} {l u : String} {s : σ}
    {snap : Option (Option Doc)} {user : User}
    (hsnap : Prog.eval srv (Fire.snapshot (.users u)) s = (.ok snap, s))
    (hu : PlaceListRepository.userArrived u snap = some user) (hid : user.id = some u) :
    Prog.eval srv (PlaceListRepository.addContributorToList l u) s =
      Prog.eval srv (Fire.onFirebaseException
        ((inOrder [nameContributorWrite l u, linkOwnerWrite u l]).bind fun _ =>
          .ret (some user)) (.ret none)) s := by
  obtain ⟨_, _, _, _, _, _⟩ := user
  cases hid
  unfold PlaceListRepository.addContributorToList Fire.onFirebaseException
  rw [Prog.eval_tryCatch, Prog.bind_eq, Prog.eval_bind, hsnap]
  simp only [hu, inOrder, Prog.bind_assoc]
  rw [Prog.eval_tryCatch]
  rfl

/-- Told of the user, the call is the two writes that leave the list, after
an id has been drawn if the list has none. -/
theorem eval_removeContributorFromList
    {srv : (q : Req Path Listener) → AppState → Except Err (Ans q) × AppState}
    (placeList : PlaceList) {u x : String} {st : AppState} {snap : Option (Option Doc)}
    {user : User} (hsnap : Prog.eval srv (Fire.snapshot (.users u)) st = (.ok snap, st))
    (hnew : Prog.eval srv (Fire.newDoc .placeLists) st = (.ok x, st.draw x))
    (hu : PlaceListRepository.userArrived u snap = some user) :
    ∃ st₁ : AppState, st₁.store = st.store ∧ st₁.log = st.log ∧
      (Prog.eval srv (PlaceListRepository.removeContributorFromList placeList u) st).2 =
        (Prog.eval srv (inOrder
          [dropContributorWrite (placeList.placeListId.getD x) u,
            unlinkWrite u placeList.placeListId]) st₁).2 := by
  rw [PlaceListRepository.removeContributorFromList, eval_rethrowing_snd, Prog.bind_eq,
    Prog.eval_bind, hsnap, ← inOrder_two]
  simp only [hu]
  cases hl : placeList.placeListId with
  | some l => exact ⟨st, rfl, rfl, rfl⟩
  | none =>
    refine ⟨st.draw x, rfl, rfl, ?_⟩
    simp only [Fire.doc, Prog.bind_eq, Prog.eval_bind, hnew]
    rfl

/-- Joining a list makes its writes if the user can be read, and returns in
any case. -/
theorem makes_addContributorToList (l u : String) (st : AppState) :
    Makes (PlaceListRepository.addContributorToList l u).void
        [nameContributorWrite l u, linkOwnerWrite u l] (Readable st.store u) ids st ∧
      ∃ r st', Prog.eval (supplied ids) (PlaceListRepository.addContributorToList l u) st =
        (.ok r, st') := by
  obtain ⟨snap, hsnap, ⟨hnot, hu⟩ | ⟨user, hread, hid, hu⟩⟩ :=
    userArrived_supplied ids u st
  · have heval : Prog.eval (supplied ids) (PlaceListRepository.addContributorToList l u) st =
        (.ok none, st) := by
      unfold PlaceListRepository.addContributorToList Fire.onFirebaseException
      rw [Prog.eval_tryCatch, Prog.bind_eq, Prog.eval_bind, hsnap]
      simp [hu]
    refine ⟨.inr ⟨fun h => hnot h.1, ?_⟩, none, st, heval⟩
    rw [Prog.void, Prog.eval_bind, heval]
    simp
  · -- the two writes, and the user for an answer
    have hbody := eval_addContributorToList (l := l) hsnap hu hid
    rw [Fire.onFirebaseException, Prog.eval_tryCatch, Prog.eval_bind] at hbody
    unfold Makes
    rw [Prog.void, Prog.eval_bind, hbody]
    obtain ⟨s', st', hs', heval, -, hlog⟩ | ⟨hnone, st', heval, hlen⟩ :=
      inOrder_cases ids [nameContributorWrite l u, linkOwnerWrite u l] st
    · rw [heval, hs']
      exact ⟨.inl ⟨⟨hread, rfl⟩, hlog⟩, some user, st', rfl⟩
    · rw [heval, hnone]
      exact ⟨.inr ⟨by simp, by simpa using Nat.ne_of_lt hlen⟩, none, st', rfl⟩

/-- The attempt to join the list stands between the notice and the
deletion. -/
theorem makes_acceptInvite {invite : Invite} (hid : invite.inviteId.isSome) (x y : String)
    (st : AppState) :
    Makes (InviteRepository.acceptInvite invite)
      ((Operation.acceptInvite invite).script x y)
      (Readable st.store invite.invitedUserId) ids st := by
  obtain ⟨id, hid⟩ := Option.isSome_iff_exists.mp hid
  have hscript : (Operation.acceptInvite invite).script x y =
      [answerWrite "accepted" invite id,
        nameContributorWrite invite.placeListId invite.invitedUserId,
        linkOwnerWrite invite.invitedUserId invite.placeListId,
        .delete (.invites invite.invitedUserId id)] := by
    simp only [Operation.script, hid, Option.getD_some]
  rw [hscript]
  obtain ⟨s₁, hs₁⟩ : ∃ s₁, (answerWrite "accepted" invite id).apply st.store = some s₁ :=
    ⟨_, Write.apply_set _ _ _⟩
  obtain ⟨hmakes, r, st₂, heval⟩ := makes_addContributorToList ids
    invite.placeListId invite.invitedUserId (st.commit (answerWrite "accepted" invite id) s₁)
  have hread : Readable s₁ invite.invitedUserId ↔ Readable st.store invite.invitedUserId := by
    rw [Readable, Write.get_of_ne hs₁ Path.noConfusion, Readable]
  have hlast : Prog.eval (supplied ids)
      (Prog.await (Req.write (.delete (.invites invite.invitedUserId id)))) st₂ =
        (.ok (), st₂.commit (.delete (.invites invite.invitedUserId id))
          (st₂.store.del (.invites invite.invitedUserId id))) :=
    eval_supplied_some (Write.apply_delete _ _)
  have hlog : (Prog.eval (supplied ids) (InviteRepository.acceptInvite invite) st).2.log =
      st₂.log ++ [.delete (.invites invite.invitedUserId id)] := by
    have hcall : (Prog.eval (supplied ids) (InviteRepository.acceptInvite invite) st).2 =
        (Prog.eval (supplied ids) (do
          Prog.await (Req.write (answerWrite "accepted" invite id))
          let _ ← PlaceListRepository.addContributorToList
            invite.placeListId invite.invitedUserId
          Prog.await (Req.write (.delete (.invites invite.invitedUserId id))) : App Unit)
            st).2 := by
      rw [InviteRepository.acceptInvite, eval_rethrowing_snd, hid]
      rfl
    rw [hcall, Prog.bind_eq, Prog.eval_bind, eval_supplied_some hs₁]
    dsimp only
    rw [Prog.bind_eq, Prog.eval_bind, heval]
    dsimp only
    rw [hlast]
    rfl
  have hall : (applyAll st.store [answerWrite "accepted" invite id,
        nameContributorWrite invite.placeListId invite.invitedUserId,
        linkOwnerWrite invite.invitedUserId invite.placeListId,
        .delete (.invites invite.invitedUserId id)]).isSome ↔
      (applyAll s₁ [nameContributorWrite invite.placeListId invite.invitedUserId,
        linkOwnerWrite invite.invitedUserId invite.placeListId]).isSome := by
    have hdelete := isSome_applyAll_delete s₁
      [nameContributorWrite invite.placeListId invite.invitedUserId,
        linkOwnerWrite invite.invitedUserId invite.placeListId]
      (.invites invite.invitedUserId id)
    rw [applyAll_cons, hs₁, Option.bind_some, ← hdelete]
    rfl
  unfold Makes at hmakes ⊢
  rw [Prog.void, Prog.eval_bind, heval] at hmakes
  rw [hlog, hall, ← hread]
  obtain ⟨hok, hlog₂⟩ | ⟨hnot, hlen⟩ := hmakes
  · refine .inl ⟨hok, ?_⟩
    have hlog₂ : st₂.log = st.log ++ [answerWrite "accepted" invite id] ++ _ := hlog₂
    rw [hlog₂, List.append_assoc, List.append_assoc]
    rfl
  · refine .inr ⟨hnot, ?_⟩
    simp at hlen ⊢
    omega

theorem makes_declineInvite {invite : Invite} (hid : invite.inviteId.isSome) (x y : String)
    (st : AppState) :
    Makes (InviteRepository.declineInvite invite)
      ((Operation.declineInvite invite).script x y) True ids st := by
  obtain ⟨id, hid⟩ := Option.isSome_iff_exists.mp hid
  unfold InviteRepository.declineInvite
  simp only [Operation.script, hid, Option.getD_some]
  exact makes_two ids st

theorem makes_deleteInvite (invite : Invite) (st : AppState) :
    Makes (InviteRepository.deleteInvite invite)
      ((Operation.deleteInvite invite).script (ids st.drawn.length)
        (ids (st.drawn.length + 1))) True ids st := by
  unfold InviteRepository.deleteInvite
  cases hid : invite.inviteId with
  | some id =>
    simp only [Operation.script, hid, Option.getD_some]
    exact makes_two ids st
  | none =>
    simp only [Operation.script, hid, Option.getD_none]
    refine .inl ⟨⟨trivial, rfl⟩, ?_⟩
    rw [eval_rethrowing_snd]
    exact List.append_assoc st.log [_] [_]

/-- Leaving a list makes its writes if the user can be read. A list without
an id is looked for under a new one. -/
theorem makes_removeContributorFromList (placeList : PlaceList) (u : String)
    (st : AppState) :
    Makes (PlaceListRepository.removeContributorFromList placeList u)
      [dropContributorWrite (placeList.placeListId.getD (ids st.drawn.length)) u,
        unlinkWrite u placeList.placeListId] (Readable st.store u) ids st := by
  obtain ⟨snap, hsnap, ⟨hnot, hu⟩ | ⟨user, hread, -, hu⟩⟩ :=
    userArrived_supplied ids u st
  · refine .inr ⟨fun h => hnot h.1, ?_⟩
    rw [PlaceListRepository.removeContributorFromList, eval_rethrowing_snd, Prog.bind_eq,
      Prog.eval_bind, hsnap]
    simp [hu]
  · have hbody := eval_removeContributorFromList placeList hsnap rfl hu
    obtain ⟨st₁, hstore, hlog, hbody⟩ := hbody
    obtain ⟨⟨-, hall⟩, hmade⟩ | ⟨hnot, hshort⟩ := makes_inOrder ids _ st₁ rfl
    · refine .inl ⟨⟨hread, hstore ▸ hall⟩, ?_⟩
      rw [hbody, hmade, hlog]
    · refine .inr ⟨fun h => hnot ⟨trivial, hstore ▸ h.2⟩, ?_⟩
      rw [hbody, ← hlog]
      exact hshort

/-- The owner of a list without an id deletes a new document. -/
theorem makes_removePlaceList (firebaseUser : AuthUser) (placeList : PlaceList)
    (st : AppState) :
    Makes (PlaceListRepository.removePlaceList firebaseUser placeList)
      ((Operation.removePlaceList firebaseUser placeList).script (ids st.drawn.length)
        (ids (st.drawn.length + 1))) True ids st := by
  by_cases howner : placeList.listOwnerId = firebaseUser.uid
  · cases hl : placeList.placeListId with
    | some l =>
      unfold PlaceListRepository.removePlaceList
      simp only [Operation.script, hl, howner, if_true, Option.getD_some]
      exact makes_two ids st
    | none =>
      simp only [Operation.script, hl, howner, if_true, Option.getD_none]
      unfold Makes
      rw [PlaceListRepository.removePlaceList, eval_rethrowing_snd, Prog.bind_eq,
        Prog.eval_bind, applyAll_cons]
      have hcall : Fire.update (.users firebaseUser.uid)
          [("placeListIds", .arrayRemove [.ofString? placeList.placeListId])] =
            (Prog.await (Req.write (unlinkWrite firebaseUser.uid none)) : App Unit) := by
        rw [hl]
        rfl
      rw [hcall, hl]
      cases hw : (unlinkWrite firebaseUser.uid none).apply st.store with
      | none =>
        rw [eval_supplied_none hw]
        exact .inr ⟨by simp, by simp⟩
      | some s₁ =>
        rw [eval_supplied_some hw]
        simp only [howner, if_true]
        exact .inl ⟨⟨trivial, rfl⟩, List.append_assoc st.log [_] [_]⟩
  · apply makes_inOrder
    rw [PlaceListRepository.removePlaceList, eval_rethrowing_snd]
    simp only [Operation.script, howner, if_false]
    rfl

/-- An operation whose documents are named makes the writes of its script
just when the user it waits for can be read and each write can be done. -/
theorem Operation.makes (op : Operation) (hn : op.Named) (st : AppState) :
    Makes op.call (op.script (ids st.drawn.length) (ids (st.drawn.length + 1)))
      (op.Ready st.store) ids st := by
  cases op with
  | acceptInvite invite => exact makes_acceptInvite ids hn _ _ st
  | declineInvite invite => exact makes_declineInvite ids hn _ _ st
  | deleteInvite invite => exact makes_deleteInvite ids invite st
  | addContributorToList placeListId userId =>
    exact (makes_addContributorToList ids placeListId userId st).1
  | removeContributorFromList placeList userId =>
    exact makes_removeContributorFromList ids placeList userId st
  | removePlaceList firebaseUser placeList =>
    exact makes_removePlaceList ids firebaseUser placeList st
  | markPlaceVisited place placeList => exact makes_move ids false _ hn.1 hn.2 st
  | restoreVisitedPlace place placeList => exact makes_move ids true _ hn.1 hn.2 st

end Call

/-! ## The call made again -/

/-- The last part of a path: the id of the document in its collection. -/
def Path.docId : Path → String
  | .users uid => uid
  | .invites _ inviteId => inviteId
  | .placeLists placeListId => placeListId
  | .places _ placeId => placeId
  | .visitedPlaces _ placeId => placeId
  | .usernames userName => userName

/-- The ids to be drawn differ, and name no document yet. -/
structure FreshIds (ids : Nat → String) (s : Store Path) : Prop where
  injective : Function.Injective ids
  unused : ∀ n (p : Path), p.docId = ids n → s.get p = none

namespace Operation

/-- An uninterrupted call makes all the writes of the operation. -/
def Completes (ids : Nat → String) (op : Operation) (st : AppState) : Prop :=
  (Prog.eval (supplied ids) op.call st).2.log.length = st.log.length + op.writeCount

/-- The script may be cut off anywhere and done again: the updates are each
the only write to their document. -/
theorem script_retryable (x y : String) (op : Operation) : Retryable (op.script x y) := by
  apply retryable_of
  intro w hw
  have hupdate : ∀ (p : Path) (f : String) (v : FieldWrite),
      (Write.update p [(f, v)]).Repeats :=
    fun p f v => Write.repeats_update (by simp)
  cases op with
  | acceptInvite invite =>
    simp only [script, List.mem_cons, List.not_mem_nil, or_false] at hw
    obtain rfl | rfl | rfl | rfl := hw
    · exact .inl rfl
    · exact .inr ⟨hupdate _ _ _, by
        simp [script, writesTo, answerWrite, nameContributorWrite, linkOwnerWrite, Write.path]⟩
    · exact .inr ⟨hupdate _ _ _, by
        simp [script, writesTo, answerWrite, nameContributorWrite, linkOwnerWrite, Write.path]⟩
    · exact .inl rfl
  | addContributorToList placeListId userId =>
    simp only [script, List.mem_cons, List.not_mem_nil, or_false] at hw
    obtain rfl | rfl := hw
    · exact .inr ⟨hupdate _ _ _, by
        simp [script, writesTo, nameContributorWrite, linkOwnerWrite, Write.path]⟩
    · exact .inr ⟨hupdate _ _ _, by
        simp [script, writesTo, nameContributorWrite, linkOwnerWrite, Write.path]⟩
  | removeContributorFromList placeList userId =>
    simp only [script, List.mem_cons, List.not_mem_nil, or_false] at hw
    obtain rfl | rfl := hw
    · exact .inr ⟨hupdate _ _ _, by
        simp [script, writesTo, dropContributorWrite, unlinkWrite, Write.path]⟩
    · exact .inr ⟨hupdate _ _ _, by
        simp [script, writesTo, dropContributorWrite, unlinkWrite, Write.path]⟩
  | removePlaceList firebaseUser placeList =>
    obtain rfl | hw := List.mem_cons.mp hw
    · refine .inr ⟨hupdate _ _ _, ?_⟩
      by_cases howner : placeList.listOwnerId = firebaseUser.uid <;>
        simp [script, writesTo, unlinkWrite, Write.path, howner]
    · split at hw
      · rw [List.mem_singleton.mp hw]
        exact .inl rfl
      · cases hw
  | declineInvite invite =>
    simp only [script, List.mem_cons, List.not_mem_nil, or_false] at hw
    obtain rfl | rfl := hw <;> exact .inl rfl
  | deleteInvite invite =>
    simp only [script, List.mem_cons, List.not_mem_nil, or_false] at hw
    obtain rfl | rfl := hw <;> exact .inl rfl
  | markPlaceVisited place placeList =>
    simp only [script, moveScript, List.mem_cons, List.not_mem_nil, or_false] at hw
    obtain rfl | rfl := hw <;> exact .inl rfl
  | restoreVisitedPlace place placeList =>
    simp only [script, moveScript, List.mem_cons, List.not_mem_nil, or_false] at hw
    obtain rfl | rfl := hw <;> exact .inl rfl

/-- No write of a script keeps the user it waits for from being read. -/
theorem ready_apply {x y : String} {op : Operation} {w : Write Path} {s s' : Store Path}
    (hw : w ∈ op.script x y) (h : w.apply s = some s') (hr : op.Ready s) : op.Ready s' := by
  have hother : ∀ u, w.path ≠ .users u → Readable s u → Readable s' u := by
    intro u hu hread
    rw [Readable, Write.get_of_ne h (Ne.symm hu)]
    exact hread
  cases op with
  | acceptInvite invite =>
    simp only [script, List.mem_cons, List.not_mem_nil, or_false] at hw
    obtain rfl | rfl | rfl | rfl := hw
    · exact hother _ Path.noConfusion hr
    · exact hother _ Path.noConfusion hr
    · exact Readable.update (fun ids => arrayUnion_strs ids _) h hr
    · exact hother _ Path.noConfusion hr
  | addContributorToList placeListId userId =>
    simp only [script, List.mem_cons, List.not_mem_nil, or_false] at hw
    obtain rfl | rfl := hw
    · exact hother _ Path.noConfusion hr
    · exact Readable.update (fun ids => arrayUnion_strs ids _) h hr
  | removeContributorFromList placeList userId =>
    simp only [script, List.mem_cons, List.not_mem_nil, or_false] at hw
    obtain rfl | rfl := hw
    · exact hother _ Path.noConfusion hr
    · exact Readable.update (fun ids => arrayRemove_strs ids _) h hr
  | _ => trivial

theorem ready_applyAll {x y : String} {op : Operation} {ws : List (Write Path)}
    (hws : ∀ w ∈ ws, w ∈ op.script x y) {s s' : Store Path} (h : applyAll s ws = some s')
    (hr : op.Ready s) : op.Ready s' := by
  induction ws generalizing s with
  | nil => cases h; exact hr
  | cons w ws ih =>
    rw [List.forall_mem_cons] at hws
    obtain ⟨s₁, hs₁, hrest⟩ := Option.bind_eq_some_iff.mp h
    exact ih hws.2 hrest (ready_apply hws.1 hs₁ hr)

/-- The operation asks for the id of a document that it does not set. -/
def Draws : Operation → Prop
  | .deleteInvite invite => invite.inviteId = none
  | .removeContributorFromList placeList _ => placeList.placeListId = none
  | .removePlaceList _ placeList => placeList.placeListId = none
  | _ => False

/-- The script of an operation that asks for no id. -/
theorem script_eq_of_not_draws {op : Operation} (hn : op.Named) (hd : ¬ op.Draws)
    (x y x' y' : String) : op.script x y = op.script x' y' := by
  have hsome : ∀ {o : Option String}, o.isSome → ∀ a b, o.getD a = o.getD b := by
    intro o ho a b
    obtain ⟨c, rfl⟩ := Option.isSome_iff_exists.mp ho
    rfl
  have hnone : ∀ {o : Option String}, ¬ o = none → o.isSome :=
    fun h => Option.isSome_iff_ne_none.mpr h
  cases op with
  | acceptInvite invite => simp only [script, hsome hn x x', hsome hn y y']
  | declineInvite invite => simp only [script, hsome hn x x', hsome hn y y']
  | deleteInvite invite =>
    simp only [script, hsome (hnone hd) x x', hsome (hnone hd) y y']
  | addContributorToList placeListId userId => rfl
  | removeContributorFromList placeList userId => simp only [script, hsome (hnone hd) x x']
  | removePlaceList firebaseUser placeList => simp only [script, hsome (hnone hd) x x']
  | markPlaceVisited place placeList =>
    simp only [script, moveScript, hsome hn.1 x x', hsome hn.2 x x']
  | restoreVisitedPlace place placeList =>
    simp only [script, moveScript, hsome hn.1 x x', hsome hn.2 x x']

/-- Such an operation makes no document, -/
theorem absent_applyAll {x y : String} {op : Operation} (hd : op.Draws)
    {ws : List (Write Path)} (hws : ∀ w ∈ ws, w ∈ op.script x y) {s s' : Store Path}
    (h : applyAll s ws = some s') {p : Path} (hp : s.get p = none) : s'.get p = none := by
  have hset : ∀ w ∈ op.script x y, w.Creates = false := by
    intro w hw
    cases op with
    | deleteInvite invite =>
      simp only [script, List.mem_cons, List.not_mem_nil, or_false] at hw
      obtain rfl | rfl := hw <;> rfl
    | removeContributorFromList placeList userId =>
      simp only [script, List.mem_cons, List.not_mem_nil, or_false] at hw
      obtain rfl | rfl := hw <;> rfl
    | removePlaceList firebaseUser placeList =>
      obtain rfl | hw := List.mem_cons.mp hw
      · rfl
      · split at hw
        · rw [List.mem_singleton.mp hw]
          rfl
        · cases hw
    | _ => exact hd.elim
  induction ws generalizing s with
  | nil => cases h; exact hp
  | cons w ws ih =>
    rw [List.forall_mem_cons] at hws
    obtain ⟨s₁, hs₁, hrest⟩ := Option.bind_eq_some_iff.mp h
    exact ih hws.2 hrest (Write.get_eq_none_of_apply hs₁ (hset w hws.1) hp)

/-- and does the same whichever new ids it is given. -/
theorem applyAll_script_of_draws {op : Operation} (hd : op.Draws) {s : Store Path}
    {x y x' y' : String}
    (habsent : ∀ z ∈ [x, y, x', y'], ∀ p : Path, p.docId = z → s.get p = none) :
    applyAll s (op.script x y) = applyAll s (op.script x' y') := by
  simp only [List.forall_mem_cons] at habsent
  obtain ⟨hx, hy, hx', hy', -⟩ := habsent
  cases op with
  | deleteInvite invite =>
    have hid : invite.inviteId = none := hd
    have hdel : ∀ a b, s.get (.invites invite.listOwnerId a) = none →
        s.get (.invites invite.invitedUserId b) = none →
        applyAll s [.delete (.invites invite.listOwnerId a),
          .delete (.invites invite.invitedUserId b)] = some s := by
      intro a b ha hb
      rw [applyAll_cons, Write.apply_delete, Store.del_of_get_eq_none ha, Option.bind_some,
        applyAll_cons, Write.apply_delete, Store.del_of_get_eq_none hb]
      rfl
    simp only [script, hid, Option.getD_none]
    rw [hdel x y (hx _ rfl) (hy _ rfl), hdel x' y' (hx' _ rfl) (hy' _ rfl)]
  | removeContributorFromList placeList userId =>
    have hl : placeList.placeListId = none := hd
    have hdrop : ∀ a, s.get (.placeLists a) = none →
        applyAll s [dropContributorWrite a userId, unlinkWrite userId none] = none := by
      intro a ha
      rw [applyAll_cons, dropContributorWrite, Write.apply_update_of_none ha]
      rfl
    simp only [script, hl, Option.getD_none]
    rw [hdrop x (hx _ rfl), hdrop x' (hx' _ rfl)]
  | removePlaceList firebaseUser placeList =>
    have hl : placeList.placeListId = none := hd
    have hdelete : ∀ a, s.get (.placeLists a) = none →
        applyAll s [unlinkWrite firebaseUser.uid none, .delete (.placeLists a)] =
          applyAll s [unlinkWrite firebaseUser.uid none] := by
      intro a ha
      rw [applyAll_cons, applyAll_cons]
      cases hw : (unlinkWrite firebaseUser.uid none).apply s with
      | none => rfl
      | some s₁ =>
        have ha₁ : s₁.get (.placeLists a) = none := by
          rw [Write.get_of_ne hw Path.noConfusion, ha]
        rw [Option.bind_some, applyAll_cons, Write.apply_delete,
          Store.del_of_get_eq_none ha₁]
    simp only [script, hl, Option.getD_none]
    split
    · rw [hdelete x (hx _ rfl), hdelete x' (hx' _ rfl)]
    · rfl
  | _ => exact hd.elim

/-- The writes of a call that completes, and what they make. -/
theorem Completes.script {ids : Nat → String} {op : Operation} {st : AppState}
    (hn : op.Named) (h : op.Completes ids st) :
    op.Ready st.store ∧ (Prog.eval (supplied ids) op.call st).2.log =
      st.log ++ op.script (ids st.drawn.length) (ids (st.drawn.length + 1)) := by
  obtain ⟨hready, hlog⟩ | ⟨-, hlen⟩ := op.makes ids hn st
  · exact ⟨hready.1, hlog⟩
  · rw [length_script] at hlen
    exact absurd h hlen

end Operation

/-- Where an uninterrupted call makes all its writes, a call that loses its
connection after any number of them, made again, leaves the database of
one uninterrupted call. -/
theorem retry_converges (op : Operation) (ids : Nat → String) (st : AppState)
    (hn : op.Named) (hids : FreshIds ids st.store) (hc : op.Completes ids st) (k : Nat) :
    (Prog.eval (supplied ids) op.call
        (Prog.eval (interrupted ids (st.log.length + k)) op.call st).2).2.store =
      (Prog.eval (supplied ids) op.call st).2.store := by
  obtain ⟨hready, hlog⟩ := hc.script hn
  obtain ⟨ws, hws, hall, hcut⟩ := eval_interrupted ids op.call st
  obtain rfl := List.append_cancel_left (hws.symm.trans hlog)
  -- the call that is cut off
  set x := ids st.drawn.length
  set y := ids (st.drawn.length + 1)
  set cut := (Prog.eval (interrupted ids (st.log.length + k)) op.call st).2
  have hk : applyAll st.store ((op.script x y).take k) = some cut.store := hcut k
  have hin : ∀ w ∈ (op.script x y).take k, w ∈ op.script x y :=
    fun w hw => List.mem_of_mem_take hw
  have hready' : op.Ready cut.store := Operation.ready_applyAll hin hk hready
  have hagain := applyAll_retry (op.script_retryable x y) hall hk
  -- the call made again
  set x' := ids cut.drawn.length
  set y' := ids (cut.drawn.length + 1)
  have hsame : applyAll cut.store (op.script x' y') = applyAll cut.store (op.script x y) := by
    by_cases hd : op.Draws
    · apply Operation.applyAll_script_of_draws hd
      have hunused : ∀ n, ∀ p : Path, p.docId = ids n → cut.store.get p = none :=
        fun n p hp => Operation.absent_applyAll hd hin hk (hids.unused n p hp)
      simp only [List.forall_mem_cons]
      exact ⟨hunused _, hunused _, hunused _, hunused _, by simp⟩
    · rw [Operation.script_eq_of_not_draws hn hd x' y' x y]
  rw [← hsame] at hagain
  obtain ⟨-, hlog'⟩ | ⟨hnot, -⟩ := op.makes ids hn cut
  · obtain ⟨ws', hws', hall', -⟩ := eval_interrupted ids op.call cut
    obtain rfl := List.append_cancel_left (hws'.symm.trans hlog')
    exact Option.some.inj (hall'.symm.trans hagain)
  · refine absurd ⟨hready', ?_⟩ hnot
    show (applyAll cut.store (op.script x' y')).isSome
    rw [hagain]
    rfl

/-- A supply of ids. -/
def exes (n : Nat) : String := String.ofList (List.replicate n 'x')

theorem exes_injective : Function.Injective exes := by
  intro m n h
  have hlen := congrArg String.length h
  simpa [exes] using hlen

/-- `bob` accepts, loses the connection after the notice, and accepts again. -/
theorem retry_converges_bob :
    (Prog.eval (supplied exes) (InviteRepository.acceptInvite bobsInvite)
        (Prog.eval (interrupted exes 1) (InviteRepository.acceptInvite bobsInvite)
          { store := bobInvited }).2).2.store =
      (Prog.eval (supplied exes) (InviteRepository.acceptInvite bobsInvite)
        { store := bobInvited }).2.store := by
  have hne : ∀ (id : String) (c : Char), c ∈ id.toList → c ≠ 'x' → ∀ n, id ≠ exes n := by
    rintro _ c hc hx n rfl
    rw [exes, String.toList_ofList] at hc
    exact hx (List.eq_of_mem_replicate hc)
  have hids : FreshIds exes bobInvited := by
    refine ⟨exes_injective, fun n p hp => ?_⟩
    have hother : ∀ q : Path, (∃ c ∈ q.docId.toList, c ≠ 'x') → p ≠ q := by
      rintro q ⟨c, hc, hx⟩ rfl
      exact hne _ c hc hx n hp
    rw [bobInvited, Store.get_ofList_cons, if_neg (hother _ ⟨'r', by decide⟩),
      Store.get_ofList_cons, if_neg (hother _ ⟨'a', by decide⟩),
      Store.get_ofList_cons, if_neg (hother _ ⟨'b', by decide⟩),
      Store.get_ofList_cons, if_neg (hother _ ⟨'i', by decide⟩)]
    rfl
  exact retry_converges (.acceptInvite bobsInvite) exes { store := bobInvited } rfl hids rfl 1

/-- An invite without an id is declined, and the connection is lost after
the notice. Declined again, it leaves a second notice. -/
theorem retry_drawn :
    ¬ ∀ (op : Operation) (ids : Nat → String) (st : AppState), FreshIds ids st.store →
      op.Completes ids st → ∀ k,
      (Prog.eval (supplied ids) op.call
          (Prog.eval (interrupted ids (st.log.length + k)) op.call st).2).2.store =
        (Prog.eval (supplied ids) op.call st).2.store := by
  intro h
  have hids : FreshIds exes ∅ := ⟨exes_injective, fun n p hp => rfl⟩
  have hsame := h (.declineInvite { bobsInvite with inviteId := none }) exes { store := ∅ }
    hids rfl 1
  have hnotice := congrArg (fun s => (s.get (.invites "ada" "xx")).isSome) hsame
  exact absurd hnotice (by decide)

end GottaGo
