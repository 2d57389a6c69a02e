/-
GottaGo.Invites.Send — how many invites a `SendInvite` event creates.

`inviteContributorToList` does not send the invite. It opens a listener on
the invitee's document, and the listener's callback sends one for each
snapshot it is handed; nobody cancels it. So every later change of the
invitee's document sends again, and accepting the invite is such a
change.

`CountedOn` is what the sender takes for granted: the first snapshot
yields an invite, which can be written, and no later snapshot yields one.
In a run in which that is so at every step, the invites created are the
names found (`invites_once`): an invite that is due, as a snapshot to be
handed over or a callback in flight, is what an event hands on to the
database (`Reach.conserves`). `invites_repeat` is one event and its
acceptance, which create two.
-/
import GottaGo.Invites.Accept
import GottaGo.Repository.Footprints
import Mathlib.Algebra.Order.Ring.Int

namespace GottaGo

open GottaGo.Async GottaGo.Async.Pool GottaGo.Firestore

/-! ## Runs -/

/-- A call that is no `SendInvite` event. -/
def unsent (t : App Unit) : App Bool := t.bind fun _ => .ret false

/-- The calls of a run: `SendInvite` events, answers to invites, writes to
any document outside the inboxes, and the callbacks of the listeners. A
callback starts when a snapshot is handed over; different listeners need
not be served in order. -/
inductive InviteStart : AppState → AppState → App Bool → Prop
  | sendInvite (st : AppState) (firebaseUser : AuthUser) (placeList : PlaceList)
      (userName inviterUsername : String) :
      InviteStart st st
        (InviteBloc.sendInvite firebaseUser placeList userName inviterUsername)
  | acceptInvite (st : AppState) (invite : Invite) :
      InviteStart st st (unsent (InviteRepository.acceptInvite invite))
  | declineInvite (st : AppState) (invite : Invite) :
      InviteStart st st (unsent (InviteRepository.declineInvite invite))
  | change (st : AppState) (w : Write Path) :
      (∀ uid id, w.path ≠ .invites uid id) →
      InviteStart st st (unsent (Prog.await (Req.write w)))
  | snapshot (st : AppState) {pre post : List (Listener × Option Doc)}
      (l : Listener) (snap : Option Doc) :
      st.feed = pre ++ (l, snap) :: post →
      InviteStart st { st with feed := pre ++ post } (unsent (l.onSnapshot snap))

/-- The write of an invite that asks for an answer. The notices that answer
one have another status. -/
def sentInvite : Write Path → Bool
  | .set (.invites _ _) d => d.get? "inviteStatus" = some (.str "sent")
  | _ => false

/-- The invites created so far. -/
def created (st : AppState) : Nat := st.log.countP sentInvite

/-- The event has ended with the name found. -/
def answeredSent : App Bool → Bool
  | .ret sent => sent
  | _ => false

/-- The `SendInvite` events whose name was found. -/
def found (c : Pool AppState (App Bool)) : Nat := c.threads.countP answeredSent

/-- The snapshot yields an invite: the user can be read and has one of the
two names, and the list has an id. -/
def sends : Listener × Option Doc → Bool
  | (.inviteContributor userId _ placeList _, snap) =>
    match User.fromSnapshot userId snap with
    | .ok user => (user.name.isSome || user.userName.isSome) && placeList.placeListId.isSome
    | .error _ => false

/-- A listener opens on a document that yields an invite, and no write hands
one to a listener that is open. -/
def onePerSend (st : AppState) : Req Path Listener → Bool
  | .listen p l => sends (l, st.store.get p)
  | .write w =>
    match w.apply st.store with
    | some s' => (State.owed st.listeners w.path st.store s').all fun x => !sends x
    | none => true
  | _ => true

/-- A request is answered as the sender counts on: it is harmless if it
succeeds, and the writing of an invite does succeed. -/
def CountedOn (q : Req Path Listener) (st : AppState) (r : Except Err (Ans q))
    (st' : AppState) : Prop :=
  Answered q st r st' ∧ ((∃ a, r = .ok a) → onePerSend st q = true) ∧
    ∀ w, q = .write w → sentInvite w = true → ∃ a, r = .ok a

/-! ## Callbacks -/

/-- The invite is built just when there is a name and a list id; it asks
for an answer. -/
theorem invite_cases {user : User} {userId : String} (hid : user.id = some userId)
    (firebaseUser : AuthUser) (placeList : PlaceList) (senderUsername : String) :
    (∃ invite : Invite, invite.inviteStatus = "sent" ∧
        ((user.name.isSome || user.userName.isSome) && placeList.placeListId.isSome) = true ∧
        Listener.invite user firebaseUser placeList senderUsername = .ret invite) ∨
      ∃ e, ((user.name.isSome || user.userName.isSome) && placeList.placeListId.isSome) = false ∧
        Listener.invite user firebaseUser placeList senderUsername = .raise e := by
  unfold Listener.invite
  rw [hid]
  cases user.name with
  | some name =>
    cases placeList.placeListId with
    | none => exact .inr ⟨_, rfl, rfl⟩
    | some placeListId => exact .inl ⟨_, rfl, rfl, rfl⟩
  | none =>
    cases user.userName with
    | none => exact .inr ⟨_, rfl, rfl⟩
    | some userName =>
      cases placeList.placeListId with
      | none => exact .inr ⟨_, rfl, rfl⟩
      | some placeListId => exact .inl ⟨_, rfl, rfl, rfl⟩

/-- A callback sends the invite its snapshot yields, or throws before it
sends one. -/
theorem onSnapshot_cases (l : Listener) (snap : Option Doc) :
    (∃ invite : Invite, invite.inviteStatus = "sent" ∧ sends (l, snap) = true ∧
        l.onSnapshot snap = InviteRepository.sendInvite invite) ∨
      ∃ e, sends (l, snap) = false ∧ l.onSnapshot snap = .raise e := by
  obtain ⟨userId, firebaseUser, placeList, senderUsername⟩ := l
  have hunfold : (Listener.inviteContributor userId firebaseUser placeList
      senderUsername).onSnapshot snap =
        (Prog.ofExcept (User.fromSnapshot userId snap)).bind fun user =>
          (Listener.invite user firebaseUser placeList senderUsername).bind fun invite =>
            InviteRepository.sendInvite invite := rfl
  simp only [sends]
  rw [hunfold]
  cases hread : User.fromSnapshot userId snap with
  | error e => exact .inr ⟨e, rfl, rfl⟩
  | ok user =>
    simp only [Prog.ofExcept, Prog.bind]
    obtain ⟨invite, hstatus, hsends, hinvite⟩ | ⟨e, hsends, hinvite⟩ :=
      invite_cases (User.fromSnapshot_ok hread).1 firebaseUser placeList senderUsername
    · rw [hinvite]
      exact .inl ⟨invite, hstatus, hsends, rfl⟩
    · rw [hinvite]
      exact .inr ⟨e, hsends, rfl⟩

/-! ## Control points -/

/-- Where a call stands. A callback is either going to send an invite, or
one of the others. -/
inductive InvitePoint where
  | look (firebaseUser : AuthUser) (placeList : PlaceList)
      (userName inviterUsername : String)
  | listen (userId : String) (firebaseUser : AuthUser) (placeList : PlaceList)
      (inviterUsername : String)
  | answered (sent : Bool)
  | draw (invite : Invite) (h : invite.inviteStatus = "sent")
  | store (invite : Invite) (h : invite.inviteStatus = "sent") (id : String)
  | other (t : App Unit)
      (h : FootprintIf (fun _ _ => True) (fun w => sentInvite w = false) (fun _ => False) t)

namespace InvitePoint

open Fire

/-- What is left of the call. -/
def task : InvitePoint → App Bool
  | .look firebaseUser placeList userName inviterUsername =>
    InviteBloc.sendInvite firebaseUser placeList userName inviterUsername
  | .listen userId firebaseUser placeList inviterUsername => do
    let inviteSent ← onFirebaseException
      (do
        Fire.listen (.users userId)
          (.inviteContributor userId firebaseUser placeList inviterUsername)
        return some true)
      (return none)
    return inviteSent = some true
  | .answered sent => .ret sent
  | .draw invite _ => unsent (InviteRepository.sendInvite invite)
  | .store invite _ id =>
    unsent (rethrowing (set (.invites invite.invitedUserId id) invite.toDocument))
  | .other t _ => unsent t

/-- The invites the call is going to create. -/
def owes : InvitePoint → Nat
  | .draw _ _ => 1
  | .store _ _ _ => 1
  | _ => 0

/-- What the call owes the database, and the database the call. -/
def balance (p : InvitePoint) : ℤ := p.owes - if answeredSent p.task then 1 else 0

end InvitePoint

/-- The invites created, and those due to open listeners. -/
def issued (st : AppState) : ℤ := created st + st.feed.countP sends

/-- A step that creates what was owed and no more. -/
def Balances (st : AppState) (p : InvitePoint) (st' : AppState) (p' : InvitePoint) : Prop :=
  issued st' + p'.balance = issued st + p.balance

@[simp] theorem answeredSent_unsent (t : App Unit) : answeredSent (unsent t) = false := by
  cases t <;> rfl

/-- A write that hands on no invite adds to what is issued only itself. -/
theorem issued_commit {st : AppState} {w : Write Path} {s' : Store Path}
    (hw : w.apply st.store = some s') (h : onePerSend st (.write w) = true) :
    issued (st.commit w s') = issued st + if sentInvite w then 1 else 0 := by
  have hnone : (State.owed st.listeners w.path st.store s').countP sends = 0 := by
    simp only [onePerSend, hw, List.all_eq_true, Bool.not_eq_true'] at h
    rw [List.countP_eq_zero]
    intro x hx
    rw [h x hx]
    simp
  unfold issued created
  rw [State.commit_log, State.commit_feed, List.countP_append, List.countP_append, hnone,
    List.countP_singleton]
  split <;> push_cast <;> omega

/-- A bystander's step issues nothing. -/
theorem issued_of_bystander {q : Req Path Listener} {st st' : AppState}
    {r : Except Err (Ans q)} (hq : Asks (fun w => sentInvite w = false) (fun _ => False) q)
    (h : CountedOn q st r st') : issued st' = issued st := by
  obtain ⟨hr, hone, -⟩ := h
  cases q with
  | write w =>
    rcases hr.write with ⟨-, rfl⟩ | ⟨s', hw, rfl, rfl⟩
    · rfl
    · have hsent : sentInvite w = false := hq
      rw [issued_commit hw (hone ⟨_, rfl⟩), hsent]
      simp
  | get p => rw [hr.get.2]
  | snapshot p =>
    obtain ⟨o, ho⟩ := hr
    cases ho
    rfl
  | listen p l => exact hq.elim
  | newDoc coll =>
    obtain ⟨o, ho⟩ := hr
    cases ho
    rfl

/-- Opening a listener issues the invite of its first snapshot. -/
theorem issued_open {st : AppState} {p : Path} {l : Listener}
    (h : onePerSend st (.listen p l) = true) : issued (st.open_ p l) = issued st + 1 := by
  have hsends : sends (l, st.store.get p) = true := h
  unfold issued created State.open_
  rw [List.countP_append, List.countP_singleton, hsends]
  push_cast
  rw [if_pos rfl]
  omega

namespace InvitePoint

@[simp] theorem balance_listen (userId : String) (firebaseUser : AuthUser)
    (placeList : PlaceList) (inviterUsername : String) :
    (listen userId firebaseUser placeList inviterUsername).balance = 0 := rfl

@[simp] theorem balance_answered_true : (answered true).balance = -1 := rfl

@[simp] theorem balance_draw (invite : Invite) (h : invite.inviteStatus = "sent") :
    (draw invite h).balance = 1 := rfl

@[simp] theorem balance_store (invite : Invite) (h : invite.inviteStatus = "sent")
    (id : String) : (store invite h id).balance = 1 := rfl

@[simp] theorem balance_other (t : App Unit)
    (h : FootprintIf (fun _ _ => True) (fun w => sentInvite w = false) (fun _ => False) t) :
    (other t h).balance = 0 := by
  simp [balance, owes, task]

/-- After the look: the listener opens, or nothing is found. -/
theorem balances_look {st st' : AppState} {firebaseUser : AuthUser} {placeList : PlaceList}
    {userName inviterUsername : String} {t' : App Bool}
    (h : Prog.Step CountedOn st
      (look firebaseUser placeList userName inviterUsername).task st' t') :
    ∃ p' : InvitePoint, t' = p'.task ∧
      Balances st (look firebaseUser placeList userName inviterUsername) st' p' := by
  obtain ⟨r, ⟨hr, -⟩, rfl⟩ := h
  obtain ⟨rfl | rfl, rfl⟩ := hr.get
  · exact ⟨.other (.raise .exception) (Prog.respects_raise _), rfl, rfl⟩
  cases hsnap : st'.store.get (.usernames userName) with
  | none => exact ⟨.answered false, rfl, rfl⟩
  | some d =>
    simp only [Prog.ofExcept, Prog.bind, Option.isNone_some, Bool.false_eq_true, if_false]
    cases hid : fieldOf (some d) "userId" >>= asString? with
    | error e =>
      simp only [Prog.tryCatch]
      by_cases he : e = .firebase
      · refine ⟨.other (.raise .exception) trivial, ?_, rfl⟩
        rw [if_pos he]
        rfl
      · refine ⟨.other (.raise e) (Prog.respects_raise _), ?_, rfl⟩
        simp only [if_neg he, Prog.bind, Prog.tryCatch]
        rfl
    | ok userId =>
      cases userId with
      | none => exact ⟨.answered false, rfl, rfl⟩
      | some userId =>
        exact ⟨.listen userId firebaseUser placeList inviterUsername, rfl, rfl⟩

/-- The step from the opening of the listener to the end of the event. -/
theorem balances_listen {st st' : AppState} {userId : String} {firebaseUser : AuthUser}
    {placeList : PlaceList} {inviterUsername : String} {t' : App Bool}
    (h : Prog.Step CountedOn st
      (listen userId firebaseUser placeList inviterUsername).task st' t') :
    ∃ p' : InvitePoint, t' = p'.task ∧
      Balances st (listen userId firebaseUser placeList inviterUsername) st' p' := by
  obtain ⟨r, ⟨⟨o, ho⟩, hone, -⟩, rfl⟩ := h
  cases ho
  refine ⟨.answered true, rfl, ?_⟩
  unfold Balances
  rw [issued_open (hone ⟨_, rfl⟩), balance_answered_true, balance_listen]
  omega

/-- A callback draws the id of its invite. -/
theorem balances_draw {st st' : AppState} {invite : Invite}
    {h : invite.inviteStatus = "sent"} {t' : App Bool}
    (hstep : Prog.Step CountedOn st (draw invite h).task st' t') :
    ∃ p' : InvitePoint, t' = p'.task ∧ Balances st (draw invite h) st' p' := by
  obtain ⟨r, ⟨⟨o, ho⟩, -⟩, rfl⟩ := hstep
  cases ho
  exact ⟨.store invite h o.draw, rfl, rfl⟩

/-- A callback creates its invite. -/
theorem balances_store {st st' : AppState} {invite : Invite}
    {h : invite.inviteStatus = "sent"} {id : String} {t' : App Bool}
    (hstep : Prog.Step CountedOn st (store invite h id).task st' t') :
    ∃ p' : InvitePoint, t' = p'.task ∧ Balances st (store invite h id) st' p' := by
  obtain ⟨r, ⟨hr, hone, hok⟩, rfl⟩ := hstep
  have hsent : sentInvite (.set (.invites invite.invitedUserId id)
      (Doc.ofList invite.toDocument)) = true := by
    simp [sentInvite, Invite.toDocument, List.lookup_cons, h]
  obtain ⟨a, rfl⟩ := hok _ rfl hsent
  obtain ⟨hfail, -⟩ | ⟨s', hs', -, rfl⟩ := hr.write
  · cases hfail
  refine ⟨.other (.ret ()) (Prog.respects_ret _), rfl, ?_⟩
  unfold Balances
  rw [issued_commit hs' (hone ⟨_, rfl⟩), if_pos hsent, balance_store, balance_other]
  omega

/-- A bystander's step. -/
theorem balances_other {st st' : AppState} {t : App Unit}
    {h : FootprintIf (fun _ _ => True) (fun w => sentInvite w = false) (fun _ => False) t}
    {t' : App Bool} (hstep : Prog.Step CountedOn st (other t h).task st' t') :
    ∃ p' : InvitePoint, t' = p'.task ∧ Balances st (other t h) st' p' := by
  cases t with
  | ret a => exact hstep.elim
  | raise e => exact hstep.elim
  | ask q k =>
    obtain ⟨r, hr, rfl⟩ := hstep
    refine ⟨.other (k r) (h.2 r trivial), rfl, ?_⟩
    unfold Balances
    rw [issued_of_bystander h.1 hr, balance_other, balance_other]

/-- Every step of a run balances. -/
theorem balances {st st' : AppState} {p : InvitePoint} {t' : App Bool}
    (h : Prog.Step CountedOn st p.task st' t') :
    ∃ p' : InvitePoint, t' = p'.task ∧ Balances st p st' p' := by
  cases p with
  | look firebaseUser placeList userName inviterUsername => exact balances_look h
  | listen userId firebaseUser placeList inviterUsername => exact balances_listen h
  | answered sent => exact h.elim
  | draw invite hs => exact balances_draw h
  | store invite hs id => exact balances_store h
  | other t ht => exact balances_other h

end InvitePoint

/-! ## Starts -/

theorem sentInvite_of_path {w : Write Path} (h : ∀ uid id, w.path ≠ .invites uid id) :
    sentInvite w = false := by
  unfold sentInvite
  split
  · next uid id d => exact absurd rfl (h uid id)
  · rfl

/-- A notice that answers an invite asks for no answer. -/
theorem notice_not_sent (invite : Invite) {status : String} (h : status ≠ "sent")
    (uid id : String) :
    sentInvite (.set (.invites uid id) (Doc.ofList
      (invite.copyWith { inviteStatus := some status }).toDocument)) = false := by
  simp [sentInvite, Invite.toDocument, Invite.copyWith, List.lookup_cons, h]

/-- A call starts at a control point, and what a callback owes is what the
snapshot it was handed was due. -/
theorem InviteStart.point {st st' : AppState} {t : App Bool} (h : InviteStart st st' t) :
    ∃ p : InvitePoint, t = p.task ∧ issued st' + p.balance = issued st := by
  cases h with
  | sendInvite firebaseUser placeList userName inviterUsername =>
    exact ⟨.look firebaseUser placeList userName inviterUsername, rfl, add_zero _⟩
  | acceptInvite invite =>
    refine ⟨.other (InviteRepository.acceptInvite invite) ?_, rfl, ?_⟩
    · exact InviteRepository.acceptInvite_footprint (notice_not_sent invite (by decide))
        (fun _ _ => rfl) (fun _ _ => rfl) fun _ _ => rfl
    · rw [InvitePoint.balance_other, add_zero]
  | declineInvite invite =>
    refine ⟨.other (InviteRepository.declineInvite invite) ?_, rfl, ?_⟩
    · exact InviteRepository.declineInvite_footprint (notice_not_sent invite (by decide))
        fun _ _ => rfl
    · rw [InvitePoint.balance_other, add_zero]
  | change w hw =>
    have hsent : sentInvite w = false := sentInvite_of_path hw
    refine ⟨.other (Prog.await (Req.write w)) (Prog.respects_await hsent), rfl, ?_⟩
    rw [InvitePoint.balance_other, add_zero]
  | @snapshot pre post l snap hfeed =>
    have hdue : st.feed.countP sends =
        (pre ++ post).countP sends + if sends (l, snap) then 1 else 0 := by
      rw [hfeed, List.countP_append, List.countP_append, List.countP_cons]
      omega
    rcases onSnapshot_cases l snap with ⟨invite, hstatus, hsends, heq⟩ | ⟨e, hsends, heq⟩
    · refine ⟨.draw invite hstatus, by rw [heq]; rfl, ?_⟩
      unfold issued created
      rw [hdue, hsends, InvitePoint.balance_draw]
      push_cast
      rw [if_pos rfl]
      omega
    · refine ⟨.other (.raise e) (Prog.respects_raise _), by rw [heq]; rfl, ?_⟩
      unfold issued created
      rw [hdue, hsends, InvitePoint.balance_other]
      simp

/-! ## Whole runs -/

theorem sum_balance (ps : List InvitePoint) :
    (ps.map InvitePoint.balance).sum =
      ((ps.map InvitePoint.owes).sum : ℤ) - ps.countP fun p => answeredSent p.task := by
  induction ps with
  | nil => rfl
  | cons p ps ih =>
    rw [List.map_cons, List.sum_cons, ih, List.map_cons, List.sum_cons, List.countP_cons,
      InvitePoint.balance]
    split <;> push_cast <;> omega

/-- A call that has ended owes nothing. -/
theorem InvitePoint.owes_of_ended {p : InvitePoint} (h : p.task.Ended) : p.owes = 0 := by
  cases p with
  | draw invite hs => exact h.elim
  | store invite hs id => exact h.elim
  | _ => rfl

/-- In every run in which the sender can count on it, no more invites are
created than names were found, and just as many once nothing is due or in
flight. -/
theorem invites_once {s : Store Path} {c : Pool AppState (App Bool)}
    (hrun : Run InviteStart (Prog.Step CountedOn) ⟨{ store := s }, []⟩ c) :
    created c.state ≤ found c ∧
      (c.Quiet → c.state.feed = [] → created c.state = found c) := by
  obtain ⟨ps, hps, hpoints⟩ : ∃ ps : List InvitePoint, c.threads = ps.map InvitePoint.task ∧
      Run (fun st st' p => issued st' + p.balance = issued st) Balances
        ⟨{ store := s }, []⟩ ⟨c.state, ps⟩ := by
    refine Reach.refines InvitePoint.task ?_ ?_ (fun _ _ _ => trivial) hrun
    · intro st st' t ht
      exact ht.point
    · intro st p st' t' ht
      exact InvitePoint.balances ht
  have htotal := hpoints.conserves (g := issued) (f := InvitePoint.balance)
    (fun _ _ _ h => h) (fun _ _ _ _ h => h)
  have hfound : found c = ps.countP fun p => answeredSent p.task := by
    rw [found, hps, List.countP_map]
    rfl
  have hbalance : (created c.state : ℤ) + c.state.feed.countP sends +
      (ps.map InvitePoint.owes).sum = found c := by
    have hzero : issued c.state + (ps.map InvitePoint.balance).sum = 0 := htotal
    rw [sum_balance, ← hfound, issued] at hzero
    omega
  constructor
  · omega
  · intro hq hfeed
    have howes : (ps.map InvitePoint.owes).sum = 0 := by
      refine List.sum_eq_zero fun n hn => ?_
      obtain ⟨p, hp, rfl⟩ := List.mem_map.mp hn
      exact InvitePoint.owes_of_ended (hq _ (hps ▸ List.mem_map_of_mem hp))
    rw [hfeed, howes, List.countP_nil] at hbalance
    omega

/-! ## Two runs -/

/-- How a call starts in a schedule: by somebody's doing, or because the
oldest snapshot is handed over. -/
inductive InviteLaunch where
  | call (t : App Bool) (h : ∀ st, InviteStart st st t)
  | handOver

def launch : InviteLaunch → AppState → Option (AppState × App Bool)
  | .call t _, st => some (st, t)
  | .handOver, st =>
    match st.feed with
    | [] => none
    | x :: feed => some ({ st with feed := feed }, unsent (x.1.onSnapshot x.2))

theorem start_of_launch (i : InviteLaunch) (st st' : AppState) (t : App Bool)
    (h : launch i st = some (st', t)) : InviteStart st st' t := by
  cases i with
  | call u hu =>
    cases h
    exact hu st
  | handOver =>
    simp only [launch] at h
    split at h
    · cases h
    · next x feed hfeed =>
      cases h
      have hsplit : st.feed = [] ++ (x.1, x.2) :: feed := hfeed
      exact .snapshot st x.1 x.2 hsplit

/-- The next step of a call that the sender can count on. -/
def nextOnce (o : Outcome) (st : AppState) (t : App Bool) : Option (AppState × App Bool) :=
  Prog.next serve (fun o q st => serves o q st && onePerSend st q) o st t

theorem step_of_nextOnce (o : Outcome) (st : AppState) (t : App Bool) (st' : AppState)
    (t' : App Bool) (h : nextOnce o st t = some (st', t')) :
    Prog.Step CountedOn st t st' t' := by
  refine Prog.step_of_next (fun o q st hadm => ?_) h
  rw [Bool.and_eq_true] at hadm
  obtain ⟨-, -, -, hok⟩ := served_of_serves o q st hadm.1
  exact ⟨⟨o, rfl⟩, fun _ => hadm.2, fun _ _ _ => hok⟩

/-- `ada` has a list, and `bob` has a name. -/
def adaAndBob : Store Path :=
  .ofList [(.placeLists "rome", listDoc "ada" []), (.users "ada", userDoc "ada" ["rome"]),
    (.users "bob", userDoc "bob" []),
    (.usernames "bob", Doc.ofList [("userId", .str "bob")])]

/-- The event in which `ada` invites `bob` to her list. -/
def inviteBob : InviteLaunch :=
  .call (InviteBloc.sendInvite { uid := "ada" }
    { placeListId := some "rome", name := "Rome", listOwnerId := "ada", icon := []
      placeCount := 0, contributorIds := some [] } "bob" "ada")
    fun st => .sendInvite st _ _ _ _

/-- `bob` declines the invite. -/
theorem invites_once_declined : ∃ c : Pool AppState (App Bool),
    found c = 1 ∧ created c.state = 1 := by
  have hplay : ∃ c : Pool AppState (App Bool),
      Run InviteStart (Prog.Step CountedOn) ⟨{ store := adaAndBob }, []⟩ c ∧
        found c = 1 ∧ c.Quiet ∧ c.state.feed = [] := by
    refine Reach.exists_playMoves
      [.start inviteBob, .adv 0 {}, .adv 0 {}, .start .handOver, .adv 0 { draw := "i1" },
        .adv 0 {}, .start (.call (unsent (InviteRepository.declineInvite bobsInvite))
          fun st => .declineInvite st _), .adv 0 {}, .adv 0 {}]
      start_of_launch step_of_nextOnce (by decide)
  obtain ⟨c, hrun, hfound, hq, hfeed⟩ := hplay
  exact ⟨c, hfound, by rw [(invites_once hrun).2 hq hfeed, hfound]⟩

/-- `bob` accepts it, which changes his document, which invites him again. -/
theorem invites_repeat :
    ¬ ∀ (s : Store Path) (c : Pool AppState (App Bool)),
      Run InviteStart (Prog.Step Served) ⟨{ store := s }, []⟩ c →
      c.Quiet → c.state.feed = [] → created c.state = found c := by
  intro h
  have hplay : ∃ c : Pool AppState (App Bool),
      Run InviteStart (Prog.Step Served) ⟨{ store := adaAndBob }, []⟩ c ∧
        (c.Quiet ∧ c.state.feed = []) ∧ created c.state = 2 ∧ found c = 1 := by
    refine Reach.exists_playMoves
      [.start inviteBob, .adv 0 {}, .adv 0 {}, .start .handOver, .adv 0 { draw := "i1" },
        .adv 0 {}, .start (.call (unsent (InviteRepository.acceptInvite bobsInvite))
          fun st => .acceptInvite st _), .adv 0 {}, .adv 0 {}, .adv 0 {}, .adv 0 {},
        .adv 0 {}, .start .handOver, .adv 0 { draw := "i2" }, .adv 0 {}]
      start_of_launch step_of_nextServed (by decide)
  obtain ⟨c, hrun, ⟨hq, hfeed⟩, hcreated, hfound⟩ := hplay
  have heq := h adaAndBob c hrun hq hfeed
  rw [hcreated, hfound] at heq
  cases heq

end GottaGo
