/-
GottaGo.Invites.LifeCycle — where an invite lies, from the call that sends
it to the call that ends it.

An invite is sent into the inbox of its invitee under a new id. Accepting
or declining it moves it, with a new status, to the inbox of the list's
owner; deleting it takes it out of both. Each of these calls writes to two
inboxes under one id, and may be made on the invite as read from either,
so what it does to the inboxes is stated once for all of them
(`answer_inboxes`).

`Kept` is what every call keeps: an invite lies in one inbox, the one its
status names, as it was sent; `invite_life_cycle` reads the life cycle off
it. The runs are of calls that return, one after the other; requests
inside them may still fail or come late where the call does not mind
(`acceptInvite` does not mind whether the user has joined).
-/
import GottaGo.Invites.Accept

namespace GottaGo

open GottaGo.Async GottaGo.Firestore

/-! ## What the calls do to the inboxes -/

/-- The notice with which an invite is answered, in the inbox of the
list's owner. -/
def answerWrite (status : String) (invite : Invite) (id : String) : Write Path :=
  .set (.invites invite.listOwnerId id)
    (Doc.ofList (invite.copyWith { inviteStatus := some status }).toDocument)

/-- The calls that are made on an invite read from an inbox. -/
inductive Answer where
  | acceptInvite
  | declineInvite
  | deleteInvite
  deriving DecidableEq

namespace Answer

def call : Answer → Invite → App Unit
  | .acceptInvite => InviteRepository.acceptInvite
  | .declineInvite => InviteRepository.declineInvite
  | .deleteInvite => InviteRepository.deleteInvite

/-- The status of the notice the call leaves, if it leaves one. -/
def status : Answer → Option String
  | .acceptInvite => some "accepted"
  | .declineInvite => some "declined"
  | .deleteInvite => none

/-- The notice the call leaves in the inbox of the list's owner. -/
def notice (a : Answer) (invite : Invite) : Option Doc :=
  a.status.map fun status =>
    Doc.ofList (invite.copyWith { inviteStatus := some status }).toDocument

end Answer

/-- Document `id` of the inbox of `uid`. -/
def inbox (s : Store Path) (uid id : String) : Option Doc := s.get (.invites uid id)

section Calls

variable {π : Req Path Listener → Outcome} {st st' : AppState}

/-- A write that returns has been done. -/
theorem eval_write_ok {w : Write Path} {a : Unit}
    (h : Prog.eval (serveBy π) (Prog.await (.write w)) st = (.ok a, st')) :
    ∃ s', w.apply st.store = some s' ∧ st' = st.commit w s' := by
  cases hf : (π (.write w)).fault with
  | true =>
    rw [eval_write_of_fault st hf] at h
    cases h
  | false =>
    cases hw : w.apply st.store with
    | none =>
      rw [eval_write_of_none st hw] at h
      cases h
    | some s' =>
      rw [eval_write_of_some st hf hw] at h
      cases h
      exact ⟨s', rfl, rfl⟩

/-- A sequence that returns has returned from its first part. -/
theorem eval_bind_ok {α β : Type} {t : App α} {f : α → App β} {b : β}
    (h : Prog.eval (serveBy π) (t.bind f) st = (.ok b, st')) :
    ∃ a st₁, Prog.eval (serveBy π) t st = (.ok a, st₁) ∧
      Prog.eval (serveBy π) (f a) st₁ = (.ok b, st') := by
  rw [Prog.eval_bind] at h
  rcases ht : Prog.eval (serveBy π) t st with ⟨e | a, st₁⟩
  · rw [ht] at h
    cases h
  · rw [ht] at h
    exact ⟨a, st₁, rfl, h⟩

/-- Two writes, one after the other, of a repository method. -/
def writeBoth (w₁ w₂ : Write Path) : App Unit :=
  rethrowing ((Prog.await (Req.write w₁)).bind fun _ => Prog.await (Req.write w₂))

theorem eval_writeBoth_ok {w₁ w₂ : Write Path}
    (h : Prog.eval (serveBy π) (writeBoth w₁ w₂) st = (.ok (), st')) :
    ∃ s₁, w₁.apply st.store = some s₁ ∧ w₂.apply s₁ = some st'.store := by
  rw [writeBoth, eval_rethrowing_eq_ok] at h
  obtain ⟨_, st₁, h₁, h⟩ := eval_bind_ok h
  obtain ⟨s₁, hs₁, rfl⟩ := eval_write_ok h₁
  obtain ⟨s₂, hs₂, rfl⟩ := eval_write_ok h
  exact ⟨s₁, hs₁, hs₂⟩

/-- An invite is declined by a notice and a delete. -/
theorem declineInvite_eq {invite : Invite} {id : String} (hid : invite.inviteId = some id) :
    InviteRepository.declineInvite invite =
      writeBoth (answerWrite "declined" invite id) (.delete (.invites invite.invitedUserId id)) := by
  rw [InviteRepository.declineInvite, hid]
  rfl

theorem deleteInvite_eq {invite : Invite} {id : String} (hid : invite.inviteId = some id) :
    InviteRepository.deleteInvite invite =
      writeBoth (.delete (.invites invite.listOwnerId id))
        (.delete (.invites invite.invitedUserId id)) := by
  rw [InviteRepository.deleteInvite, hid]
  rfl

/-- What a call leaves in the inboxes: its notice with the list's owner and
nothing with the invitee, who comes last if the two are the same. -/
theorem answer_inboxes (a : Answer) {invite : Invite} {id : String}
    (hid : invite.inviteId = some id)
    (h : Prog.eval (serveBy π) (a.call invite) st = (.ok (), st')) (uid j : String) :
    inbox st'.store uid j =
      if j = id ∧ uid = invite.invitedUserId then none
      else if j = id ∧ uid = invite.listOwnerId then a.notice invite
      else inbox st.store uid j := by
  have hset : ∀ (s : Store Path) (v : String) (d : Doc),
      inbox (s.put (.invites v id) d) uid j =
        if j = id ∧ uid = v then some d else inbox s uid j := by
    intro s v d
    simp [inbox, Store.get_put, and_comm]
  have hdel : ∀ (s : Store Path) (v : String),
      inbox (s.del (.invites v id)) uid j =
        if j = id ∧ uid = v then none else inbox s uid j := by
    intro s v
    simp [inbox, Store.get_del, and_comm]
  cases a with
  | acceptInvite =>
    rw [Answer.call, InviteRepository.acceptInvite, eval_rethrowing_eq_ok, hid] at h
    obtain ⟨_, st₁, h₁, h⟩ := eval_bind_ok h
    cases h₁
    obtain ⟨_, st₁, h₁, h⟩ := eval_bind_ok h
    obtain ⟨s₁, hs₁, rfl⟩ := eval_write_ok h₁
    cases hs₁
    obtain ⟨_, st₂, h₂, h⟩ := eval_bind_ok h
    obtain ⟨_, h₃⟩ := eval_bind_ok h
    obtain ⟨_, hret, h₃⟩ := h₃
    cases hret
    obtain ⟨s₃, hs₃, rfl⟩ := eval_write_ok h₃
    cases hs₃
    -- joining the list writes to no inbox
    obtain ⟨r, st₂', heval, -, -, -, hframe⟩ := addContributorToList_eval (π := π)
      (l := invite.placeListId) (u := invite.invitedUserId)
      (st.commit (answerWrite "accepted" invite id) _)
    have hst₂ : st₂' = st₂ := congrArg Prod.snd (heval.symm.trans h₂)
    subst hst₂
    rw [State.commit_store, hdel, inbox, hframe _ Path.noConfusion Path.noConfusion]
    rw [State.commit_store, ← inbox, hset]
    rfl
  | declineInvite =>
    rw [Answer.call, declineInvite_eq hid] at h
    obtain ⟨s₁, hs₁, hs₂⟩ := eval_writeBoth_ok h
    cases hs₁
    rw [← Option.some.inj hs₂, hdel, hset]
    rfl
  | deleteInvite =>
    rw [Answer.call, deleteInvite_eq hid] at h
    obtain ⟨s₁, hs₁, hs₂⟩ := eval_writeBoth_ok h
    cases hs₁
    rw [← Option.some.inj hs₂, hdel, hdel]
    rfl

/-- A send that returns has drawn an id and stored the invite under it. -/
theorem sendInvite_inboxes {invite : Invite}
    (h : Prog.eval (serveBy π) (InviteRepository.sendInvite invite) st = (.ok (), st'))
    (uid j : String) :
    let id := (π (.newDoc (.invites invite.invitedUserId))).draw
    id ∈ st'.drawn ∧ inbox st'.store uid j =
      if j = id ∧ uid = invite.invitedUserId then some (Doc.ofList invite.toDocument)
      else inbox st.store uid j := by
  intro id
  rw [InviteRepository.sendInvite, eval_rethrowing_eq_ok] at h
  obtain ⟨id', st₁, h₁, h⟩ := eval_bind_ok h
  cases h₁
  obtain ⟨s₂, hs₂, rfl⟩ := eval_write_ok h
  cases hs₂
  have hmem : id ∈ (st.draw id).drawn := List.mem_cons_self
  constructor
  · exact hmem
  show inbox (st.store.put (.invites invite.invitedUserId id) _) uid j = _
  simp [inbox, Store.get_put, and_comm]

end Calls

/-! ## Runs -/

/-- The database, and the invites sent so far with the ids they were given. -/
structure Postbox where
  db : AppState
  sent : List (String × Invite) := []

namespace Postbox

/-- Document `id` of the inbox of `uid`. -/
def inbox (b : Postbox) (uid id : String) : Option Doc := GottaGo.inbox b.db.store uid id

/-- Invite `id` has been sent and lies in no inbox. -/
def Gone (b : Postbox) (id : String) : Prop :=
  id ∈ b.sent.map Prod.fst ∧ ∀ uid, b.inbox uid id = none

end Postbox

/-- One call that returns. What is sent asks for an answer, as what
`inviteContributorToList` sends does, and its id is new; what is answered
has been read from an inbox. `π` decides about the requests of the call. -/
inductive LifeStep : Postbox → Postbox → Prop
  | sendInvite {π : Req Path Listener → Outcome} {st st' : AppState}
      {sent : List (String × Invite)} {invite : Invite} {id : String} :
      invite.inviteStatus = "sent" →
      (π (.newDoc (.invites invite.invitedUserId))).draw = id →
      Fresh st (.invites invite.invitedUserId) id →
      Prog.eval (serveBy π) (InviteRepository.sendInvite invite) st = (.ok (), st') →
      LifeStep ⟨st, sent⟩ ⟨st', (id, invite) :: sent⟩
  | answer {π : Req Path Listener → Outcome} {st st' : AppState}
      {sent : List (String × Invite)} (a : Answer) {invite : Invite} {uid id : String} :
      Invite.fromSnapshot id (inbox st.store uid id) = .ok invite →
      Prog.eval (serveBy π) (a.call invite) st = (.ok (), st') →
      LifeStep ⟨st, sent⟩ ⟨st', sent⟩

abbrev LifeRun : Postbox → Postbox → Prop := Relation.ReflTransGen LifeStep

/-! ## What every call keeps -/

/-- Invite `id`, sent as `invite`, lies with `uid` under the status
`status`. -/
structure LiesWith (b : Postbox) (uid id : String) (invite : Invite) (status : String) :
    Prop where
  sent : (id, invite) ∈ b.sent
  stored : b.inbox uid id =
    some (Doc.ofList (invite.copyWith { inviteStatus := some status }).toDocument)
  holder : status = "sent" ∧ uid = invite.invitedUserId ∨
    (status = "accepted" ∨ status = "declined") ∧ uid = invite.listOwnerId

/-- The ids given out are different and have been drawn, and every document
of an inbox is an invite that lies where its status says, and nowhere
else. -/
structure Kept (b : Postbox) : Prop where
  drawn : ∀ e ∈ b.sent, e.1 ∈ b.db.drawn
  nodup : (b.sent.map Prod.fst).Nodup
  lies : ∀ uid id, b.inbox uid id ≠ none → ∃ invite status, LiesWith b uid id invite status
  once : ∀ uid uid' id, b.inbox uid id ≠ none → b.inbox uid' id ≠ none → uid = uid'

/-- What is read from an inbox is what was sent, with its id and its
status. -/
theorem LiesWith.read {b : Postbox} {uid id : String} {invite read : Invite}
    {status : String} (h : LiesWith b uid id invite status)
    (hread : Invite.fromSnapshot id (b.inbox uid id) = .ok read) :
    read = invite.copyWith { inviteId := some id, inviteStatus := some status } := by
  rw [h.stored, Invite.fromSnapshot_toDocument] at hread
  exact (Except.ok.inj hread).symm

/-- An id that has not been drawn lies in no inbox. -/
theorem Kept.inbox_eq_none {b : Postbox} (h : Kept b) {id : String}
    (hid : id ∉ b.db.drawn) (uid : String) : b.inbox uid id = none := by
  by_contra hne
  obtain ⟨invite, status, hlies⟩ := h.lies uid id hne
  exact hid (h.drawn _ hlies.sent)

theorem LifeStep.drawn {b b' : Postbox} (h : LifeStep b b') : b.db.drawn ⊆ b'.db.drawn := by
  cases h with
  | @sendInvite π st st' _ invite _ _ _ _ heval =>
    have hsub := drawn_subset_eval st (π := π) (InviteRepository.sendInvite invite)
    rwa [heval] at hsub
  | @answer π st st' _ a invite _ _ _ heval =>
    have hsub := drawn_subset_eval st (π := π) (a.call invite)
    rwa [heval] at hsub

/-- Sending puts the invite in the inbox of its invitee. -/
theorem Kept.sendInvite {st st' : AppState} {sent : List (String × Invite)}
    {invite : Invite} {id : String} (h : Kept ⟨st, sent⟩)
    (hstatus : invite.inviteStatus = "sent") (hid : id ∉ st.drawn) (hdrawn : id ∈ st'.drawn)
    (hsub : st.drawn ⊆ st'.drawn)
    (hinbox : ∀ uid j, inbox st'.store uid j =
      if j = id ∧ uid = invite.invitedUserId then some (Doc.ofList invite.toDocument)
      else inbox st.store uid j) : Kept ⟨st', (id, invite) :: sent⟩ := by
  have hnone : ∀ uid, inbox st.store uid id = none := h.inbox_eq_none hid
  have hself : ∀ uid, inbox st'.store uid id ≠ none → uid = invite.invitedUserId := by
    intro uid hne
    by_contra hu
    rw [hinbox, if_neg (by simp [hu]), hnone] at hne
    exact hne rfl
  have hother : ∀ uid j, j ≠ id → inbox st'.store uid j = inbox st.store uid j := by
    intro uid j hj
    rw [hinbox, if_neg (by simp [hj])]
  refine ⟨?_, ?_, ?_, ?_⟩
  · intro e he
    rcases List.mem_cons.mp he with rfl | he
    · exact hdrawn
    · exact hsub (h.drawn e he)
  · rw [List.map_cons, List.nodup_cons]
    refine ⟨fun hmem => ?_, h.nodup⟩
    obtain ⟨e, he, hid'⟩ := List.mem_map.mp hmem
    have he' : e.1 ∈ st.drawn := h.drawn e he
    rw [hid'] at he'
    exact hid he'
  · intro uid j hne
    have hne : inbox st'.store uid j ≠ none := hne
    by_cases hj : j = id
    · subst hj
      have hu := hself uid hne
      refine ⟨invite, "sent", List.mem_cons_self, ?_, .inl ⟨rfl, hu⟩⟩
      show inbox st'.store uid j = _
      rw [hinbox, if_pos ⟨rfl, hu⟩, ← hstatus]
      rfl
    · rw [hother uid j hj] at hne
      obtain ⟨i, status, hsent, hstored, hholder⟩ := h.lies uid j hne
      exact ⟨i, status, List.mem_cons_of_mem _ hsent, (hother uid j hj).trans hstored, hholder⟩
  · intro uid uid' j hne hne'
    have hne : inbox st'.store uid j ≠ none := hne
    have hne' : inbox st'.store uid' j ≠ none := hne'
    by_cases hj : j = id
    · subst hj
      rw [hself uid hne, hself uid' hne']
    · rw [hother _ j hj] at hne hne'
      exact h.once uid uid' j hne hne'

/-- Answering moves the invite to the list's owner, or takes it away. -/
theorem Kept.answer {st st' : AppState} {sent : List (String × Invite)} (a : Answer)
    {invite : Invite} {status uid id : String} (h : Kept ⟨st, sent⟩)
    (hlies : LiesWith ⟨st, sent⟩ uid id invite status) (hsub : st.drawn ⊆ st'.drawn)
    (hinbox : ∀ v j, inbox st'.store v j =
      if j = id ∧ v = invite.invitedUserId then none
      else if j = id ∧ v = invite.listOwnerId then a.notice invite
      else inbox st.store v j) : Kept ⟨st', sent⟩ := by
  have hother : ∀ v j, j ≠ id → inbox st'.store v j = inbox st.store v j := by
    intro v j hj
    rw [hinbox, if_neg (by simp [hj]), if_neg (by simp [hj])]
  -- the invite was with its invitee or with the list's owner, so what is
  -- left of it is the notice
  have hself : ∀ v, inbox st'.store v id ≠ none →
      v = invite.listOwnerId ∧ inbox st'.store v id = a.notice invite := by
    intro v hne
    rw [hinbox] at hne
    by_cases hu : v = invite.invitedUserId
    · rw [if_pos ⟨rfl, hu⟩] at hne
      exact absurd rfl hne
    · by_cases ho : v = invite.listOwnerId
      · rw [hinbox, if_neg (by simp [hu]), if_pos ⟨rfl, ho⟩]
        exact ⟨ho, rfl⟩
      · rw [if_neg (by simp [hu]), if_neg (by simp [ho])] at hne
        have huid : inbox st.store uid id ≠ none := by
          have hstored : inbox st.store uid id = _ := hlies.stored
          rw [hstored]
          exact Option.some_ne_none _
        have hv : v = uid := h.once v uid id hne huid
        obtain ⟨-, hi⟩ | ⟨-, hi⟩ := hlies.holder
        · exact absurd (hv.trans hi) hu
        · exact absurd (hv.trans hi) ho
  refine ⟨fun e he => hsub (h.drawn e he), h.nodup, ?_, ?_⟩
  · intro v j hne
    have hne : inbox st'.store v j ≠ none := hne
    by_cases hj : j = id
    · subst hj
      obtain ⟨ho, hnotice⟩ := hself v hne
      rw [hnotice] at hne
      cases a with
      | acceptInvite =>
        exact ⟨invite, "accepted", hlies.sent, hnotice, .inr ⟨.inl rfl, ho⟩⟩
      | declineInvite =>
        exact ⟨invite, "declined", hlies.sent, hnotice, .inr ⟨.inr rfl, ho⟩⟩
      | deleteInvite => exact absurd rfl hne
    · rw [hother v j hj] at hne
      obtain ⟨i, s, hsent, hstored, hholder⟩ := h.lies v j hne
      exact ⟨i, s, hsent, (hother v j hj).trans hstored, hholder⟩
  · intro v v' j hne hne'
    have hne : inbox st'.store v j ≠ none := hne
    have hne' : inbox st'.store v' j ≠ none := hne'
    by_cases hj : j = id
    · subst hj
      rw [(hself v hne).1, (hself v' hne').1]
    · rw [hother _ j hj] at hne hne'
      exact h.once v v' j hne hne'

/-- What a call on an invite read from an inbox does to the inboxes, in
terms of the invite as it was sent. -/
theorem LiesWith.answer_inboxes {π : Req Path Listener → Outcome} {st st' : AppState}
    {sent : List (String × Invite)} {a : Answer} {uid id status : String}
    {invite read : Invite} (h : LiesWith ⟨st, sent⟩ uid id invite status)
    (hread : Invite.fromSnapshot id (inbox st.store uid id) = .ok read)
    (heval : Prog.eval (serveBy π) (a.call read) st = (.ok (), st')) (v j : String) :
    inbox st'.store v j =
      if j = id ∧ v = invite.invitedUserId then none
      else if j = id ∧ v = invite.listOwnerId then a.notice invite
      else inbox st.store v j := by
  obtain rfl := h.read hread
  exact GottaGo.answer_inboxes a rfl heval v j

theorem LifeStep.keeps {b b' : Postbox} (hstep : LifeStep b b') (h : Kept b) : Kept b' := by
  have hsub := hstep.drawn
  cases hstep with
  | @sendInvite π st st' sent invite id hstatus hdraw hfresh heval =>
    have hinboxes := sendInvite_inboxes heval
    rw [hdraw] at hinboxes
    exact h.sendInvite hstatus hfresh.2 (hinboxes "" "").1 hsub fun v j => (hinboxes v j).2
  | @answer π st st' sent a read uid id hread heval =>
    have hne : inbox st.store uid id ≠ none :=
      Option.isSome_iff_ne_none.mp (Invite.fromSnapshot_ok hread).2
    obtain ⟨invite, status, hlies⟩ := h.lies uid id hne
    exact h.answer a hlies hsub (hlies.answer_inboxes hread heval)

/-- An id that is gone stays gone: what is sent has a new id, and what is
answered lies somewhere. -/
theorem LifeStep.gone {b b' : Postbox} (hstep : LifeStep b b') (h : Kept b) {id : String}
    (hgone : b.Gone id) : b'.Gone id := by
  obtain ⟨hsent, hnone⟩ := hgone
  have hdrawn : id ∈ b.db.drawn := by
    obtain ⟨e, he, rfl⟩ := List.mem_map.mp hsent
    exact h.drawn e he
  cases hstep with
  | @sendInvite π st st' sent invite id' hstatus hdraw hfresh heval =>
    have hne : id ≠ id' := by
      rintro rfl
      exact hfresh.2 hdrawn
    refine ⟨List.mem_cons_of_mem _ hsent, fun uid => ?_⟩
    show inbox st'.store uid id = none
    rw [(sendInvite_inboxes heval uid id).2, hdraw, if_neg (by simp [hne])]
    exact hnone uid
  | @answer π st st' sent a read uid' id' hread heval =>
    have hne' : inbox st.store uid' id' ≠ none :=
      Option.isSome_iff_ne_none.mp (Invite.fromSnapshot_ok hread).2
    have hne : id ≠ id' := by
      rintro rfl
      exact hne' (hnone uid')
    obtain ⟨invite, status, hlies⟩ := h.lies uid' id' hne'
    refine ⟨hsent, fun uid => ?_⟩
    show inbox st'.store uid id = none
    rw [hlies.answer_inboxes hread heval, if_neg (by simp [hne]), if_neg (by simp [hne])]
    exact hnone uid

theorem LifeRun.keeps {b b' : Postbox} (hrun : LifeRun b b') (h : Kept b) : Kept b' := by
  induction hrun with
  | refl => exact h
  | tail _ hstep ih => exact hstep.keeps ih

theorem LifeRun.gone {b b' : Postbox} (hrun : LifeRun b b') (h : Kept b) {id : String}
    (hgone : b.Gone id) : b'.Gone id := by
  induction hrun with
  | refl => exact hgone
  | tail hrun hstep ih => exact hstep.gone (LifeRun.keeps hrun h) ih

/-! ## The life cycle -/

/-- Nothing has been sent yet. -/
theorem kept_of_empty {b : Postbox} (hempty : ∀ uid id, b.inbox uid id = none)
    (hsent : b.sent = []) : Kept b := by
  refine ⟨?_, ?_, ?_, ?_⟩
  · intro e he
    rw [hsent] at he
    cases he
  · rw [hsent]
    exact List.nodup_nil
  · intro uid id hne
    exact absurd (hempty uid id) hne
  · intro uid _ id hne
    exact absurd (hempty uid id) hne

/-- In every state that calls reach from one with empty inboxes: the ids
given out are different, an id lies in at most one inbox, what lies there
is an invite that was sent under that id, changed in its status only and
with the user whom the status names, and an id that has left every inbox
lies in none from then on. -/
theorem invite_life_cycle {b₀ b : Postbox} (hempty : ∀ uid id, b₀.inbox uid id = none)
    (hsent : b₀.sent = []) (hrun : LifeRun b₀ b) :
    (b.sent.map Prod.fst).Nodup ∧
    (∀ uid uid' id, b.inbox uid id ≠ none → b.inbox uid' id ≠ none → uid = uid') ∧
    (∀ uid id, b.inbox uid id ≠ none → ∃ sent read : Invite, (id, sent) ∈ b.sent ∧
      Invite.fromSnapshot id (b.inbox uid id) = .ok read ∧
      read = { sent with inviteId := some id, inviteStatus := read.inviteStatus } ∧
      (read.inviteStatus = "sent" ∧ uid = read.invitedUserId ∨
        (read.inviteStatus = "accepted" ∨ read.inviteStatus = "declined") ∧
          uid = read.listOwnerId)) ∧
    (∀ id b', b.Gone id → LifeRun b b' → b'.Gone id) := by
  have hkept : Kept b := hrun.keeps (kept_of_empty hempty hsent)
  have hstays : ∀ id b', b.Gone id → LifeRun b b' → b'.Gone id :=
    fun id b' hgone hrun' => LifeRun.gone hrun' hkept hgone
  refine ⟨hkept.nodup, hkept.once, ?_, hstays⟩
  intro uid id hne
  obtain ⟨invite, status, hlies⟩ := hkept.lies uid id hne
  have hread : Invite.fromSnapshot id (b.inbox uid id) =
      .ok { invite with inviteId := some id, inviteStatus := status } := by
    rw [hlies.stored, Invite.fromSnapshot_toDocument]
    rfl
  exact ⟨invite, _, hlies.sent, hread, rfl, hlies.holder⟩

/-- Nobody has been invited to the list of `ada`. -/
def uninvited : AppState where
  store := .ofList [(.placeLists "rome", listDoc "ada" []),
    (.users "ada", userDoc "ada" ["rome"]), (.users "bob", userDoc "bob" [])]

/-- A call is known by its two results. -/
theorem eval_eq_of_fst {α σ ε : Type} {r : Except ε α × σ} {a : α} (h : r.1 = .ok a) :
    r = (.ok a, r.2) := Prod.ext h rfl

/-- Nothing is disturbed, and the invite is drawn the id `i1`. -/
def calm (_ : Req Path Listener) : Outcome := { draw := "i1" }

/-- `ada` has invited `bob`, and he has answered. -/
def bobAnswered (a : Answer) : Postbox where
  db :=
    (Prog.eval (serveBy calm) (a.call bobsInvite)
      (Prog.eval (serveBy calm)
        (InviteRepository.sendInvite { bobsInvite with inviteId := none }) uninvited).2).2
  sent := [("i1", { bobsInvite with inviteId := none })]

theorem lifeRun_bobAnswered (a : Answer) (ha : a = .acceptInvite ∨ a = .declineInvite) :
    LifeRun { db := uninvited } (bobAnswered a) := by
  let sent : Invite := { bobsInvite with inviteId := none }
  let st₁ := (Prog.eval (serveBy calm) (InviteRepository.sendInvite sent) uninvited).2
  have hfresh : Fresh uninvited (.invites "bob") "i1" := ⟨by decide, List.not_mem_nil⟩
  have hok₁ : (Prog.eval (serveBy calm) (InviteRepository.sendInvite sent) uninvited).1 =
      .ok () := by decide
  have hsend : LifeStep ⟨uninvited, []⟩ ⟨st₁, [("i1", sent)]⟩ :=
    .sendInvite rfl rfl hfresh (eval_eq_of_fst hok₁)
  have hread : Invite.fromSnapshot "i1" (inbox st₁.store "bob" "i1") = .ok bobsInvite := by
    decide
  have hok₂ : (Prog.eval (serveBy calm) (a.call bobsInvite) st₁).1 = .ok () := by
    rcases ha with rfl | rfl <;> decide
  exact .tail (.single hsend) (.answer a hread (eval_eq_of_fst hok₂))

/-- `bob` is invited and accepts: of all inboxes only that of `ada` holds the
invite. -/
theorem invite_life_cycle_bob :
    ∃ b, LifeRun { db := uninvited } b ∧ b.inbox "ada" "i1" ≠ none ∧
      ∀ uid, b.inbox uid "i1" ≠ none → uid = "ada" := by
  have hrun := lifeRun_bobAnswered .acceptInvite (.inl rfl)
  have hempty : ∀ uid id, (⟨uninvited, []⟩ : Postbox).inbox uid id = none := by
    intro uid id
    rfl
  have honce := (invite_life_cycle hempty rfl hrun).2.1
  have hada : (bobAnswered .acceptInvite).inbox "ada" "i1" ≠ none := by decide
  exact ⟨_, hrun, hada, fun uid huid => honce uid "ada" "i1" huid hada⟩

end GottaGo
