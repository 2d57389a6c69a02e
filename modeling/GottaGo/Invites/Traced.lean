/-
GottaGo.Invites.Traced — what may lie in an inbox.

The inbox of a user is written by others: by whoever invites the user to a
list, and by whoever answers an invite of the user's. The calls write what
they are told, and they are told what a card shows. `inbox_traced` says
that no run of the app forges anything. An invite in an inbox was put
there by a member of its list (`Admitted`; a member's page makes one of whoever
is signed in), for somebody who has registered a name. A notice is, but for
its status, an invite that the user who holds it has sent; and one that says
`accepted` is backed by the answer of the invitee, who counts as admitted from
then on.

This holds at every moment of runs in which calls overlap and requests
fail, where `invite_life_cycle` speaks of calls that return one after the
other.
-/
import GottaGo.Membership.Provenance

namespace GottaGo

open GottaGo.Async GottaGo.Async.Pool GottaGo.Firestore

/-- The invite in the inbox of `uid` asks for an answer. -/
structure AsksFor (sees : String → String → Prop) (committed : Write Path → Prop) (uid : String)
    (invite : Invite) : Prop where
  status : invite.inviteStatus = "sent"
  invitee : invite.invitedUserId = uid
  sender : Admitted sees committed invite.placeListId invite.listOwnerId
  name : HasRegistered committed uid

/-- The notice in the inbox of `uid` says how an invite was answered that the
user has sent. -/
structure Notifies (sees : String → String → Prop) (committed : Write Path → Prop)
    (uid id : String) (notice : Invite) : Prop where
  status : notice.inviteStatus = "accepted" ∨ notice.inviteStatus = "declined"
  sender : notice.listOwnerId = uid
  answers : Answers sees committed id notice
  member : notice.inviteStatus = "accepted" →
    Admitted sees committed notice.placeListId notice.invitedUserId

/-- A notice that says so admits the invitee. -/
theorem Answers.admitted {sees : String → String → Prop} {committed : Write Path → Prop}
    {id : String} {notice : Invite} {d : Doc}
    (h : Answers sees committed id notice) (haccepted : notice.inviteStatus = "accepted")
    (hset : committed (.set (.invites notice.listOwnerId id) d))
    (hread : Invite.fromSnapshot id (some d) = .ok notice) :
    Admitted sees committed notice.placeListId notice.invitedUserId := by
  obtain ⟨sent, status, ⟨hsent, -, hmember, d₀, hset₀, hread₀⟩, rfl⟩ := h
  obtain rfl : status = "accepted" := haccepted
  have hadmitted : Admitted sees committed sent.placeListId sent.invitedUserId :=
    .invitee hmember rfl hset₀ hread₀ hsent hset hread
  exact hadmitted

/-- Whatever lies in an inbox, in any run of the app, is an invite from a
member, or a notice of an invite that was sent. -/
theorem inbox_traced {sees : String → String → Prop} {c : Pool AppState (App Unit)}
    (h : AppRun sees ⟨{ store := ∅ }, []⟩ c) (uid id : String) (d : Doc)
    (hd : inbox c.state.store uid id = some d) :
    ∃ invite, Invite.fromSnapshot id (some d) = .ok invite ∧
      (AsksFor sees (InLog c.state) uid invite ∨ Notifies sees (InLog c.state) uid id invite) := by
  have hstore : Typed (AppSchema sees (InLog c.state)) c.state.store := h.obeys_of_empty.1.store
  obtain ⟨hset, invite, hread, hlies, hmember, hanswers⟩ := hstore _ d hd
  refine ⟨invite, hread, ?_⟩
  rcases hlies with ⟨hsent, huser⟩ | ⟨hstatus, howner⟩
  · obtain ⟨hadmitted, hname⟩ := hmember hsent
    exact .inl ⟨hsent, huser, hadmitted, hname⟩
  · have hanswer : Answers sees (InLog c.state) id invite := by
      refine hanswers fun hsent => ?_
      simp [hsent] at hstatus
    exact .inr ⟨hstatus, howner, hanswer, fun haccepted =>
      hanswer.admitted haccepted (howner ▸ hset) hread⟩

/-- Bob has accepted, and Ada has a document in her inbox. -/
theorem inbox_traced_bob : ∃ (c : Pool AppState (App Unit)) (invite : Invite),
    (inbox c.state.store "ada" "i").isSome ∧
      (AsksFor AdaAndBob (InLog c.state) "ada" invite ∨
        Notifies AdaAndBob (InLog c.state) "ada" "i" invite) := by
  have hplay : ∃ c : Pool AppState (App Unit), AppRun AdaAndBob ⟨{ store := ∅ }, []⟩ c ∧
      (inbox c.state.store "ada" "i").isSome :=
    AppRun.exists_playMoves bobJoins (by decide)
  obtain ⟨c, hrun, hsome⟩ := hplay
  obtain ⟨d, hd⟩ := Option.isSome_iff_exists.mp hsome
  obtain ⟨invite, -, hinvite⟩ := inbox_traced hrun "ada" "i" d hd
  exact ⟨c, invite, hsome, hinvite⟩

end GottaGo
