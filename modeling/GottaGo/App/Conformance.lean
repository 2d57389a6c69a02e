/-
GottaGo.App.Conformance — every session of the app keeps the schema and
the rules.

One lemma for each repository function says what its arguments must be
for its writes to keep `AppSchema`, and for which user they are allowed;
one for each read of a page says what a value that was read is. A session
is then its read, followed by calls on a value of which the schema says
enough.

`stored_decodes` is what follows for the database: whatever the users do
at the same time, and whichever requests fail, a document that is stored
can be read by the decoder of its class, and lies where it belongs.
-/
import GottaGo.App.Rules
import GottaGo.App.Sessions

namespace GottaGo

open GottaGo.Async GottaGo.Async.Pool GottaGo.Firestore Schema

/-- The listener works for somebody who has been admitted to the list, and waits
for somebody who has a name. -/
def ListensFor (sees : String → String → Prop) (committed : Write Path → Prop) : Listener → Prop
  | .inviteContributor userId firebaseUser placeList _ =>
    (∃ p, sees firebaseUser.uid p) ∧ HasRegistered committed userId ∧
      ∀ l, placeList.placeListId = some l → Admitted sees committed l firebaseUser.uid

/-- Told documents of the schema, the call writes what keeps it and what is
allowed. -/
abbrev Keeping {α : Type} (sees : String → String → Prop) (committed : Write Path → Prop)
    (t : App α) : Prop :=
  Conforms (AppSchema sees committed) committed (Allowed sees committed)
    (ListensFor sees committed) t

variable {sees : String → String → Prop} {committed : Write Path → Prop} {a p : String} {α : Type}

/-- A write of user `a` on a page of `p`. -/
theorem allowed_by {w : Write Path} (hs : sees a p) (hw : MayWrite sees committed a p w)
    (hkeeps : committed w → (AppSchema sees committed).Keeps w) :
    Allowed sees committed w ∧ (committed w → (AppSchema sees committed).Keeps w) :=
  ⟨hw.allowed hs, hkeeps⟩

/-- A write that anybody may make. -/
theorem allowed_anyone {w : Write Path} (hw : AnyoneMayWrite sees committed w)
    (hkeeps : (AppSchema sees committed).Keeps w) :
    Allowed sees committed w ∧ (committed w → (AppSchema sees committed).Keeps w) :=
  ⟨.inl hw, fun _ => hkeeps⟩

/-- A change of the lists of who is signed in, or of the page. -/
theorem allowed_lists {u : String} {w : FieldWrite} (hs : sees a p) (hu : u = a ∨ u = p)
    (h : KeepsIds (fun l => Admitted sees committed l u) w) :
    Allowed sees committed (.update (.users u) [("placeListIds", w)]) ∧
      (committed (.update (.users u) [("placeListIds", w)]) →
        (AppSchema sees committed).Keeps (.update (.users u) [("placeListIds", w)])) := by
  refine allowed_by hs ?_ fun _ => keeps_lists h
  rcases hu with rfl | rfl
  · exact .inr ⟨rfl, w, rfl, h⟩
  · exact .inl rfl

/-- The account of the page joins a list that it has been admitted to. -/
theorem allowed_join {l : String} (hs : sees a p) (h : Admitted sees committed l p) :
    Allowed sees committed
        (.update (.placeLists l) [("contributorIds", .arrayUnion [.str p])]) ∧
      (committed (.update (.placeLists l) [("contributorIds", .arrayUnion [.str p])]) →
        (AppSchema sees committed).Keeps
          (.update (.placeLists l) [("contributorIds", .arrayUnion [.str p])])) :=
  allowed_by hs ⟨rfl, h⟩ fun _ => keeps_contributors (.arrayUnion h)

/-! ## Users and usernames -/

/-- The user may be written to the document of `uid`. -/
def OwnUser (sees : String → String → Prop) (committed : Write Path → Prop) (uid : String)
    (user : User) : Prop :=
  user.id = some uid ∧
    ∃ ids, user.placeListIds = some ids ∧ ∀ l ∈ ids, Admitted sees committed l uid

theorem ownUser_signUpUser (uid name : String) (email : Option String) :
    OwnUser sees committed uid (signUpUser uid name email) :=
  ⟨rfl, [], rfl, by simp⟩

/-- A change that names neither the id nor the lists. -/
theorem OwnUser.copyWith {uid : String} {user : User} (h : OwnUser sees committed uid user)
    {c : User.Changes} (hid : c.id = none) (hids : c.placeListIds = none) :
    OwnUser sees committed uid (user.copyWith c) := by
  simpa [OwnUser, User.copyWith, hid, hids] using h

theorem OwnUser.document {uid : String} {user : User} (h : OwnUser sees committed uid user)
    {d : Doc} (hd : ∀ f v, (f, v) ∈ user.toDocument → d.get? f = some v) :
    AppDoc sees committed (.users uid) d := by
  obtain ⟨hid, ids, hids, hhas⟩ := h
  exact UserDoc.of_user hid hids hhas hd

namespace DatabaseRepository

theorem createUser_keeping (hs : sees a p) {user : User} (h : OwnUser sees committed p user) :
    Keeping sees committed (createUser user) := by
  refine rethrowing_footprint ?_
  rw [h.1]
  exact FootprintIf.set (allowed_by hs rfl fun _ => keeps_set (h.document fun _ _ =>
    get?_ofList_of_mem user.toDocument_nodup))

/-- The write of `updateUser`, here and in `UserRepository`. -/
theorem keeps_putAll {uid : String} {user : User} (h : OwnUser sees committed uid user) :
    (AppSchema sees committed).Keeps (.update (.users uid) (putAll user.toDocument)) :=
  keeps_update fun d _ => h.document fun _ _ => get?_update_putAll d user.toDocument_nodup

theorem updateUser_keeping (hs : sees a p) {user : User} (h : OwnUser sees committed p user) :
    Keeping sees committed (updateUser user) := by
  refine rethrowing_footprint ?_
  rw [h.1]
  exact FootprintIf.update (allowed_by hs (.inl rfl) fun _ => keeps_putAll h)

theorem deleteUserData_keeping (hs : sees a p) {user : User} (h : OwnUser sees committed p user) :
    Keeping sees committed (deleteUserData user) := by
  refine rethrowing_footprint ?_
  rw [h.1]
  exact FootprintIf.delete (allowed_by hs rfl fun _ => keeps_delete)

/-- Whoever is found in the directory has registered the name. -/
theorem checkUsernameExists_bind {userName : String} {f : Option String → App α}
    (hnone : Keeping sees committed (f none))
    (hsome : ∀ userId, HasRegistered committed userId →
      Keeping sees committed (f (some userId))) :
    Keeping sees committed ((checkUsernameExists userName).bind f) := by
  refine ⟨trivial, fun r hr => ?_⟩
  cases r with
  | error e => cases e <;> trivial
  | ok snap =>
    cases snap with
    | none => exact hnone
    | some d =>
      obtain ⟨hset, uid, huid⟩ := appSchema_some.mp hr
      have hread : fieldOf (some d) "userId" = .ok (.str uid) :=
        Place.fieldOf_some_eq_ok.mpr huid
      show Keeping sees committed (Prog.bind (Prog.tryCatch
        (Prog.ofExcept (fieldOf (some d) "userId" >>= asString?)) _) f)
      rw [hread]
      exact hsome uid ⟨userName, d, hset, huid⟩

theorem registerUsername_keeping (hs : sees a p) (userName : String) :
    Keeping sees committed (registerUsername userName p) := by
  have hfield : (Doc.ofList [("userId", .str p)]).get? "userId" = some (.str p) := by simp
  refine rethrowing_footprint ?_
  exact FootprintIf.set (allowed_by hs hfield fun hset => keeps_set ⟨hset, p, hfield⟩)

theorem deregisterUsername_keeping (hs : sees a p) (userName : String) :
    Keeping sees committed (deregisterUsername userName) :=
  deregisterUsername_footprint (allowed_by hs trivial fun _ => keeps_delete)

end DatabaseRepository

theorem UserRepository.updateUser_keeping (hs : sees a p) {user : User}
    (h : OwnUser sees committed p user) : Keeping sees committed (updateUser user) := by
  rw [updateUser, h.1]
  exact FootprintIf.update (allowed_by hs (.inl rfl) fun _ => DatabaseRepository.keeps_putAll h)

theorem StorageRepository.uploadImage_keeping (hs : sees a p) (putFile : Except Err Unit)
    (downloadUrl : Except Err String) {user : User} (hid : user.id = some p) :
    Keeping sees committed (uploadImage putFile downloadUrl user) := by
  refine Prog.Respects.tryCatch ?_ fun _ => trivial
  refine (Prog.respects_ofExcept _).bind fun _ => ?_
  refine rethrowing_footprint ?_
  refine (Prog.respects_ofExcept _).bind fun url => ?_
  rw [hid]
  exact FootprintIf.update (allowed_by hs (.inl rfl) fun _ =>
    keeps_update fun d hd => UserDoc.update_picture hd url)

theorem OnboardingBloc.updateUser_keeping (hs : sees a p) {user : User}
    (h : OwnUser sees committed p user) : Keeping sees committed (updateUser user) := by
  have hupdate : Keeping sees committed (DatabaseRepository.updateUser user) :=
    DatabaseRepository.updateUser_keeping hs h
  unfold updateUser
  split
  · refine (FootprintIf.bang _).bind fun userName => ?_
    rw [h.1]
    exact (DatabaseRepository.registerUsername_keeping hs _).bind fun _ => hupdate
  · exact hupdate

theorem setUsername_keeping (hs : sees a p) {user : User} (h : OwnUser sees committed p user)
    (userName : String) : Keeping sees committed (setUsername user userName) := by
  refine (DatabaseRepository.checkUsernameAvailability_footprint _).bind fun available => ?_
  split
  · exact OnboardingBloc.updateUser_keeping hs (h.copyWith rfl rfl)
  · trivial

theorem SettingsBloc.updateUsername_keeping (hs : sees a p) {user : User}
    (h : OwnUser sees committed p user) (userName : String) :
    Keeping sees committed (updateUsername user userName) := by
  refine (FootprintIf.bang _).bind fun oldName => ?_
  refine (DatabaseRepository.deregisterUsername_keeping hs _).bind fun _ => ?_
  rw [h.1]
  refine (DatabaseRepository.registerUsername_keeping hs _).bind fun _ => ?_
  exact DatabaseRepository.updateUser_keeping hs (h.copyWith rfl rfl)

theorem changeUsername_keeping (hs : sees a p) {user : User} (h : OwnUser sees committed p user)
    (userName : String) : Keeping sees committed (changeUsername user userName) := by
  refine (DatabaseRepository.checkUsernameAvailability_footprint _).bind fun available => ?_
  split
  · exact SettingsBloc.updateUsername_keeping hs h userName
  · trivial

/-! ## Lists -/

namespace PlaceListRepository

/-- The list that is created has the account of the page for owner, and who is
signed in has it then. -/
theorem createPlaceList_keeping {firebaseUser : AuthUser} (hs : sees firebaseUser.uid p)
    {placeList : PlaceList} (howner : placeList.listOwnerId = p)
    (hids : placeList.contributorIds = some []) :
    Keeping sees committed (createPlaceList firebaseUser placeList) := by
  refine rethrowing_footprint ?_
  refine (FootprintIf.newDoc _).bind fun id => ?_
  have hids' : (placeList.copyWith { placeListId := some id }).contributorIds = some [] := by
    simpa [PlaceList.copyWith] using hids
  have howner' : (placeList.copyWith { placeListId := some id }).listOwnerId = p := howner
  generalize placeList.copyWith { placeListId := some id } = created at hids' howner'
  cases hfs : created.toDocument with
  | error e => trivial
  | ok fields =>
    obtain ⟨hnd, hfield⟩ := PlaceList.toDocument_ok hfs
    have hname : (Doc.ofList fields).get? "listOwnerId" = some (.str p) := by
      rw [get?_ofList_of_mem hnd ((hfield _).mpr rfl), howner']
    have hfounded : committed (.set (.placeLists id) (Doc.ofList fields)) →
        Founded committed id p :=
      fun hset => ⟨_, hset, hname⟩
    refine Conforms.write_bind (allowed_by hs hname fun hset => ?_) fun hset => ?_
    · exact keeps_set (ListDoc.of_placeList hids' (by simp) (howner' ▸ hfounded hset) hfs
        fun _ _ => get?_ofList_of_mem hnd)
    · exact FootprintIf.update (allowed_lists hs (.inl rfl)
        (.arrayUnion (.page (.owner (hfounded hset)) hs)))

/-- The user who is added has been admitted. -/
theorem addContributorToList_keeping (hs : sees a p) {placeListId : String}
    (h : Admitted sees committed placeListId p) :
    Keeping sees committed (addContributorToList placeListId p) := by
  refine FootprintIf.onFirebaseException ?_ trivial
  refine (FootprintIf.snapshot _).bind fun snap => ?_
  cases hsnap : userArrived p snap with
  | none => trivial
  | some invitedUser =>
    have hid : invitedUser.id = some p := by
      obtain ⟨d, rfl, hread⟩ := Option.bind_eq_some_iff.mp hsnap
      cases hok : User.fromSnapshot p d with
      | error e => rw [hok] at hread; cases hread
      | ok user =>
        rw [hok] at hread
        cases hread
        exact (User.fromSnapshot_ok hok).1
    dsimp only
    rw [hid]
    refine (FootprintIf.update (allowed_join hs h)).bind fun _ => ?_
    exact (FootprintIf.update (allowed_lists hs (.inr rfl) (.arrayUnion h))).bind fun _ => trivial

theorem removePlaceList_keeping {firebaseUser : AuthUser} (hs : sees firebaseUser.uid p)
    {l : String} {placeList : PlaceList} (h : OwnList sees committed l placeList) :
    Keeping sees committed (removePlaceList firebaseUser placeList) := by
  refine rethrowing_footprint ?_
  refine (FootprintIf.update (allowed_lists hs (.inl rfl) (.arrayRemove _ _))).bind fun _ => ?_
  split
  · next howner =>
    rw [h.1]
    exact FootprintIf.delete (allowed_by hs (howner ▸ h.2.1) fun _ => keeps_delete)
  · trivial

theorem updatePlaceLists_keeping {l : String} {placeList : PlaceList}
    (h : OwnList sees committed l placeList) :
    Keeping sees committed (updatePlaceLists placeList) := by
  obtain ⟨hid, howner, ids, hids, hhas⟩ := id h
  refine updatePlaceLists_footprint hid fun fields hfs =>
    allowed_anyone ⟨placeList, fields, h, hfs, rfl⟩ (keeps_update fun d _ => ?_)
  exact ListDoc.of_placeList hids hhas howner hfs fun _ _ =>
    get?_update_putAll d (PlaceList.toDocument_ok hfs).1

theorem inviteContributorToList_keeping {firebaseUser : AuthUser} (hs : sees firebaseUser.uid p)
    {placeList : PlaceList}
    (h : ∀ l, placeList.placeListId = some l → Admitted sees committed l firebaseUser.uid)
    (userName senderUsername : String) :
    Keeping sees committed
      (inviteContributorToList firebaseUser placeList userName senderUsername) := by
  refine FootprintIf.onFirebaseException ?_ trivial
  refine DatabaseRepository.checkUsernameExists_bind trivial fun userId hname => ?_
  exact Prog.respects_await_bind ⟨⟨p, hs⟩, hname, h⟩ fun _ _ => trivial

/-! ## Places -/

/-- The two collections of places below a list. -/
def HoldsPlaces (coll : String → String → Path) : Prop :=
  coll = .places ∨ coll = .visitedPlaces

/-- Anybody may put a place there. -/
theorem HoldsPlaces.set {coll : String → String → Path} (h : HoldsPlaces coll) {l id : String}
    {d : Doc} (hd : PlaceDoc id d) :
    Allowed sees committed (.set (coll l id) d) ∧
      (committed (.set (coll l id) d) → (AppSchema sees committed).Keeps (.set (coll l id) d)) := by
  rcases h with rfl | rfl
  · exact allowed_anyone hd (keeps_set hd)
  · exact allowed_anyone hd (keeps_set hd)

theorem HoldsPlaces.delete {coll : String → String → Path} (h : HoldsPlaces coll)
    (l id : String) :
    Allowed sees committed (.delete (coll l id)) ∧
      (committed (.delete (coll l id)) →
        (AppSchema sees committed).Keeps (.delete (coll l id))) := by
  rcases h with rfl | rfl
  · exact allowed_anyone trivial keeps_delete
  · exact allowed_anyone trivial keeps_delete

theorem listId_keeping (placeList : PlaceList) :
    Keeping sees committed (movePlace.listId placeList) := by
  unfold movePlace.listId
  split
  · trivial
  · exact FootprintIf.newDoc _

/-- A place goes under its own id, or under a new one. -/
theorem setPlace_keeping {coll : String → String → Path} (hcoll : HoldsPlaces coll)
    (l : String) (place : Place) :
    Keeping sees committed
      ((Fire.doc (coll l) place.placeId).bind fun ref => Fire.set ref place.toDocument) := by
  have hread := Place.fromSnapshot_toDocument place
  cases hid : place.placeId with
  | some id =>
    exact FootprintIf.set (hcoll.set ⟨place, hread, .inl hid⟩)
  | none =>
    rw [Fire.doc, Prog.bind_assoc]
    refine (FootprintIf.newDoc _).bind fun id => ?_
    exact FootprintIf.set (hcoll.set ⟨place, hread, .inr hid⟩)

theorem movePlace_keeping {src dst : String → String → Path} (hsrc : HoldsPlaces src)
    (hdst : HoldsPlaces dst) (place : Place) (placeList : PlaceList) :
    Keeping sees committed (movePlace src dst place placeList) := by
  refine rethrowing_footprint ?_
  refine (listId_keeping placeList).bind fun srcList => ?_
  refine FootprintIf.doc_bind fun id => ?_
  refine (FootprintIf.delete (hsrc.delete srcList id)).bind fun _ => ?_
  refine (listId_keeping placeList).bind fun dstList => ?_
  exact setPlace_keeping hdst dstList place

theorem holdsPlaces_places : HoldsPlaces .places := .inl rfl

theorem holdsPlaces_visitedPlaces : HoldsPlaces .visitedPlaces := .inr rfl

theorem addPlaceToList_keeping (place : Place) (placeList : PlaceList) :
    Keeping sees committed (addPlaceToList place placeList) := by
  refine rethrowing_footprint ?_
  show Keeping sees committed (Prog.bind (Prog.bind _ _) _)
  rw [Prog.bind_assoc]
  exact (listId_keeping placeList).bind fun l => setPlace_keeping holdsPlaces_places l place

theorem removePlace_keeping {coll : String → String → Path} (hcoll : HoldsPlaces coll)
    (place : Place) (placeList : PlaceList) :
    Keeping sees committed ((placeRef coll place placeList).bind fun ref => Fire.delete ref) := by
  show Keeping sees committed (Prog.bind (Prog.bind _ _) _)
  rw [Prog.bind_assoc]
  refine (listId_keeping placeList).bind fun l => ?_
  exact FootprintIf.doc_bind fun id => FootprintIf.delete (hcoll.delete l id)

theorem placeWrite_keeping (place : Place) (placeListId docId : String) :
    Keeping sees committed (Prog.await (Req.write (placeWrite place placeListId docId))) := by
  refine Prog.respects_await (holdsPlaces_places.set
    ⟨place, Place.fromSnapshot_toDocument place, ?_⟩)
  cases hid : place.placeId with
  | none => exact .inr rfl
  | some id => exact .inl rfl

end PlaceListRepository

open PlaceListRepository in
/-- The calls of a batch. -/
theorem editPlaces_keeping (firebaseUser : AuthUser) (accountDeleted reportSent : Except Err Unit)
    (selectedPlaces : List Place) (event : EditPlacesEdit) :
    ∀ c ∈ event.calls selectedPlaces,
      Keeping sees committed (c.task firebaseUser accountDeleted reportSent) := by
  intro c hc
  have hmark : ∀ place placeList, Keeping sees committed
      (PlaceListRepository.markPlaceVisited place placeList) := fun place placeList =>
    movePlace_keeping holdsPlaces_places holdsPlaces_visitedPlaces place placeList
  have hremove : ∀ place placeList, Keeping sees committed
      (PlaceListRepository.removePlaceFromList place placeList) := fun place placeList =>
    rethrowing_footprint (removePlace_keeping holdsPlaces_places place placeList)
  have hremove' : ∀ place placeList, Keeping sees committed
      (PlaceListRepository.removePlaceFromVisitedList place placeList) := fun place placeList =>
    rethrowing_footprint (removePlace_keeping holdsPlaces_visitedPlaces place placeList)
  cases event with
  | deletePlaces placeList =>
    obtain ⟨place, -, rfl⟩ := List.mem_map.mp hc
    exact hremove place placeList
  | deleteVisitedPlaces placeList =>
    obtain ⟨place, -, rfl⟩ := List.mem_map.mp hc
    exact hremove' place placeList
  | markVisitedPlaces placeList =>
    obtain ⟨place, -, rfl⟩ := List.mem_map.mp hc
    exact hmark place placeList
  | deleteVisitedPlace place placeList =>
    obtain rfl := List.mem_singleton.mp hc
    exact hremove' place placeList
  | deletePlace place placeList =>
    obtain rfl := List.mem_singleton.mp hc
    exact hremove place placeList
  | markVisitedPlace place placeList =>
    obtain rfl := List.mem_singleton.mp hc
    exact hmark place placeList
  | unVisitPlace place placeList =>
    obtain rfl := List.mem_singleton.mp hc
    exact movePlace_keeping holdsPlaces_visitedPlaces holdsPlaces_places place placeList

/-! ## Invites -/

/-- The invite is that of document `id` in the inbox of `uid`. -/
def OwnInvite (sees : String → String → Prop) (committed : Write Path → Prop) (uid id : String)
    (invite : Invite) : Prop :=
  invite.inviteId = some id ∧ LiesAt uid invite ∧
    (invite.inviteStatus = "sent" →
      Admitted sees committed invite.placeListId invite.listOwnerId) ∧
    (invite.inviteStatus ≠ "sent" → Answers sees committed id invite) ∧
    ∃ d, committed (.set (.invites uid id) d) ∧ Invite.fromSnapshot id (some d) = .ok invite

section OwnInvite

variable {id : String} {invite : Invite}

/-- An invite that asks for an answer is the user's to answer. -/
theorem OwnInvite.invited (h : OwnInvite sees committed p id invite)
    (hsent : invite.inviteStatus = "sent") : Invited sees committed p id invite := by
  obtain ⟨-, hlies, hadmitted, -, hset⟩ := h
  rcases hlies with ⟨-, huser⟩ | ⟨haccepted | hdeclined, -⟩
  · exact ⟨hsent, huser, hadmitted hsent, hset⟩
  · simp [hsent] at haccepted
  · simp [hsent] at hdeclined

/-- What is read of an answer. -/
theorem fromSnapshot_answer (hid : invite.inviteId = some id) (status : String) :
    Invite.fromSnapshot id (some (Doc.ofList
      (invite.copyWith { inviteStatus := some status }).toDocument)) =
      .ok (invite.copyWith { inviteStatus := some status }) := by
  rw [Invite.fromSnapshot_toDocument]
  simp [Invite.copyWith, hid]

/-- An answer, and a notice that is put back, answer what was sent. -/
theorem OwnInvite.answers (h : OwnInvite sees committed p id invite) (status : String) :
    Answers sees committed id (invite.copyWith { inviteStatus := some status }) := by
  by_cases hsent : invite.inviteStatus = "sent"
  · have hinvited := h.invited hsent
    exact ⟨invite, status, hinvited.2.1 ▸ hinvited, rfl⟩
  · obtain ⟨sent, status', hinvited, heq⟩ := h.2.2.2.1 hsent
    refine ⟨sent, status, hinvited, ?_⟩
    rw [heq]
    simp [Invite.copyWith]

/-- A notice may lie with the owner of the list. -/
theorem OwnInvite.keeps_answerWrite (h : OwnInvite sees committed p id invite) {status : String}
    (hstatus : status = "accepted" ∨ status = "declined")
    (hset : committed (answerWrite status invite id)) :
    (AppSchema sees committed).Keeps (answerWrite status invite id) := by
  refine keeps_set ⟨hset, _, fromSnapshot_answer h.1 status, .inr ⟨hstatus, rfl⟩,
    fun hsent => ?_, fun _ => h.answers status⟩
  have hs : status = "sent" := hsent
  subst hs
  simp at hstatus

/-- The user deletes from the own inbox. -/
theorem allowed_inbox (hs : sees a p) (id : String) :
    Allowed sees committed (.delete (.invites p id)) ∧
      (committed (.delete (.invites p id)) →
        (AppSchema sees committed).Keeps (.delete (.invites p id))) :=
  allowed_by hs (Or.inl rfl) fun _ => keeps_delete

/-- The invitee clears the own inbox, and a sender that of the invitee. -/
theorem OwnInvite.mayDelete (h : OwnInvite sees committed p id invite) :
    MayWrite sees committed a p (.delete (.invites invite.invitedUserId id)) := by
  obtain ⟨-, hlies, -, -, d, hset, hread⟩ := h
  rcases hlies with ⟨-, huser⟩ | ⟨-, howner⟩
  · exact .inl huser
  · exact .inr ⟨d, invite, hset, hread, howner, rfl⟩

namespace InviteRepository

theorem sendInvite_keeping {invite : Invite} (hs : sees invite.listOwnerId p)
    (hstatus : invite.inviteStatus = "sent")
    (h : Admitted sees committed invite.placeListId invite.listOwnerId)
    (hname : HasRegistered committed invite.invitedUserId) :
    Keeping sees committed (sendInvite invite) := by
  refine rethrowing_footprint ?_
  refine (FootprintIf.newDoc _).bind fun id => ?_
  have hread := Invite.fromSnapshot_toDocument invite id
  exact FootprintIf.set (allowed_by hs ⟨_, hread, .invite hstatus rfl rfl h hname⟩ fun hset =>
    keeps_set ⟨hset, _, hread, .inl ⟨hstatus, rfl⟩, fun _ => ⟨h, hname⟩,
      fun hnot => absurd hstatus hnot⟩)

/-- Accepting an invite that was sent. -/
theorem acceptInvite_keeping (hs : sees a p) (h : OwnInvite sees committed p id invite)
    (hsent : invite.inviteStatus = "sent") : Keeping sees committed (acceptInvite invite) := by
  have hinvited := h.invited hsent
  have huser := hinvited.2.1
  obtain ⟨-, -, howner, d, hset, hread⟩ := h.invited hsent
  refine rethrowing_footprint ?_
  rw [h.1]
  refine Conforms.write_bind (w := answerWrite "accepted" invite id) (allowed_by hs
    ⟨_, fromSnapshot_answer h.1 _, .answer hinvited rfl (.inl rfl)⟩
    (h.keeps_answerWrite (.inl rfl))) fun haccepted => ?_
  have hadmitted : Admitted sees committed invite.placeListId p :=
    huser ▸ .invitee howner rfl (huser ▸ hset) hread hsent haccepted (fromSnapshot_answer h.1 _)
  rw [huser]
  refine (PlaceListRepository.addContributorToList_keeping hs hadmitted).bind fun _ => ?_
  exact FootprintIf.delete (allowed_inbox hs id)

/-- Declining an invite that was sent, or a notice that says so. -/
theorem declineInvite_keeping (hs : sees a p) (h : OwnInvite sees committed p id invite)
    (hstatus : invite.inviteStatus ≠ "accepted") :
    Keeping sees committed (declineInvite invite) := by
  have hput : MayPut sees committed a p invite.listOwnerId id
      (invite.copyWith { inviteStatus := some "declined" }) := by
    rcases h.2.1 with ⟨hsent, -⟩ | ⟨haccepted | -, howner⟩
    · exact .answer (h.invited hsent) rfl (.inr rfl)
    · exact absurd haccepted hstatus
    · exact .notice howner howner rfl (h.answers "declined")
  refine rethrowing_footprint ?_
  rw [h.1]
  refine Conforms.write_bind (w := answerWrite "declined" invite id) (allowed_by hs
    ⟨_, fromSnapshot_answer h.1 _, hput⟩ (h.keeps_answerWrite (.inr rfl))) fun _ => ?_
  exact FootprintIf.delete (allowed_by hs h.mayDelete fun _ => keeps_delete)

/-- Deleting a notice. -/
theorem deleteInvite_keeping (hs : sees a p) (h : OwnInvite sees committed p id invite)
    (hstatus : invite.inviteStatus ≠ "sent") :
    Keeping sees committed (deleteInvite invite) := by
  have howner : invite.listOwnerId = p := by
    rcases h.2.1 with ⟨hsent, -⟩ | ⟨-, howner⟩
    · exact absurd hsent hstatus
    · exact howner
  refine rethrowing_footprint ?_
  rw [h.1]
  rw [howner]
  refine (FootprintIf.delete (allowed_inbox hs id)).bind fun _ => ?_
  exact FootprintIf.delete (allowed_by hs h.mayDelete fun _ => keeps_delete)

end InviteRepository

end OwnInvite

/-- The callback of a listener that works for a user who has the list. -/
theorem Listener.onSnapshot_keeping {l : Listener} (h : ListensFor sees committed l)
    (snap : Option Doc) : Keeping sees committed (l.onSnapshot snap) := by
  obtain ⟨userId, firebaseUser, placeList, senderUsername⟩ := l
  obtain ⟨⟨p, hs⟩, hname, hlist⟩ := h
  show Keeping sees committed ((Prog.ofExcept (User.fromSnapshot userId snap)).bind _)
  cases hread : User.fromSnapshot userId snap with
  | error e => trivial
  | ok user =>
    show Keeping sees committed ((Listener.invite user _ _ _).bind _)
    unfold Listener.invite
    rw [(User.fromSnapshot_ok hread).1]
    cases hl : placeList.placeListId with
    | none => cases user.name <;> cases user.userName <;> trivial
    | some placeListId =>
      have hsend : ∀ inviteeName, Keeping sees committed (InviteRepository.sendInvite
          { invitedUserId := userId, inviteeName := inviteeName, listOwnerId := firebaseUser.uid,
            inviterName := firebaseUser.displayName.getD senderUsername,
            placeListId := placeListId, placeListName := placeList.name,
            inviteStatus := "sent" }) := fun _ =>
        InviteRepository.sendInvite_keeping hs rfl (hlist placeListId hl) hname
      cases user.name with
      | some name => exact hsend name
      | none =>
        cases user.userName with
        | none => trivial
        | some userName => exact hsend userName

/-! ## What a page has read -/

section Reads

theorem keeping_get_bind {p : Path} {f : Option Doc → App α}
    (hnone : Keeping sees committed (f none))
    (hsome : ∀ d, AppDoc sees committed p d → Keeping sees committed (f (some d))) :
    Keeping sees committed ((Fire.get p).bind f) := by
  refine Conforms.get_bind fun snap hsnap => ?_
  cases snap with
  | none => exact hnone
  | some d => exact hsome d (appSchema_some.mp hsnap)

theorem readProfile_bind {uid : String} {f : User → App α}
    (h : ∀ user, OwnUser sees committed uid user → Keeping sees committed (f user)) :
    Keeping sees committed ((readProfile uid).bind f) := by
  show Keeping sees committed (Prog.bind (Prog.bind _ _) _)
  rw [Prog.bind_assoc]
  refine keeping_get_bind trivial fun d hd => ?_
  cases hread : User.fromSnapshot uid (some d) with
  | error e => trivial
  | ok user =>
    obtain ⟨hid, d', ids, hd', hids, hfield, -⟩ := User.fromSnapshot_ok hread
    cases hd'
    obtain ⟨ids', hids', hhas⟩ := hd.lists
    obtain rfl : ids = ids' := by
      rw [hfield] at hids'
      simpa [Value.strs, List.map_inj_right] using hids'
    exact h user ⟨hid, ids, hids, hhas⟩

theorem readList_bind {l : String} {f : PlaceList → App α}
    (h : ∀ placeList, OwnList sees committed l placeList → Keeping sees committed (f placeList)) :
    Keeping sees committed ((readList l).bind f) := by
  show Keeping sees committed (Prog.bind (Prog.bind _ _) _)
  rw [Prog.bind_assoc]
  refine keeping_get_bind trivial fun d hd => ?_
  cases hread : PlaceList.fromSnapshot l (some d) with
  | error e => trivial
  | ok placeList =>
    obtain ⟨hid, d', ids, hd', hids, hfield, howner⟩ := PlaceList.fromSnapshot_ok hread
    cases hd'
    obtain ⟨ids', hids', hhas⟩ := hd.contributors
    obtain rfl : ids = ids' := by
      rw [hfield] at hids'
      simpa [Value.strs, List.map_inj_right] using hids'
    obtain ⟨o, ho, hadmitted⟩ := hd.owner
    rw [howner] at ho
    cases ho
    exact h placeList ⟨hid, hadmitted, ids, hids, hhas⟩

theorem readInvite_bind {uid id : String} {f : Invite → App α}
    (h : ∀ invite, OwnInvite sees committed uid id invite → Keeping sees committed (f invite)) :
    Keeping sees committed ((readInvite uid id).bind f) := by
  show Keeping sees committed (Prog.bind (Prog.bind _ _) _)
  rw [Prog.bind_assoc]
  refine keeping_get_bind trivial fun d hd => ?_
  obtain ⟨hset, invite, hread, hlies, hadmitted, hanswers⟩ := hd
  show Keeping sees committed (Prog.bind (Prog.ofExcept (Invite.fromSnapshot id (some d))) f)
  rw [hread]
  exact h invite ⟨(Invite.fromSnapshot_ok hread).1, hlies, fun hsent => (hadmitted hsent).1,
    hanswers, d, hset, hread⟩

end Reads

/-! ## Sessions -/

/-- What needs somebody signed in throws when nobody is. -/
theorem bang_bind {currentUser : Option AuthUser} {f : AuthUser → App α}
    (h : ∀ u ∈ currentUser, Keeping sees committed (f u)) :
    Keeping sees committed ((Fire.bang currentUser).bind f) := by
  cases currentUser with
  | none => trivial
  | some u => exact h u rfl

theorem OwnList.copyWith {l : String} {placeList : PlaceList}
    (h : OwnList sees committed l placeList) {c : PlaceList.Changes} (hid : c.placeListId = none)
    (howner : c.listOwnerId = none) (hids : c.contributorIds = none) :
    OwnList sees committed l (placeList.copyWith c) := by
  simpa [OwnList, PlaceList.copyWith, hid, howner, hids] using h

/-- Whoever invites to a list that a page shows has been admitted to it, as the
account of the page has. -/
theorem inviteTo_keeping {currentUser : Option AuthUser}
    (hs : ∀ u ∈ currentUser, sees u.uid p) (placeListId userName inviterUsername : String) :
    Keeping sees committed
      (Session.task ⟨currentUser, p, .inviteTo placeListId userName inviterUsername⟩) := by
  refine readProfile_bind fun user huser => ?_
  split
  · next hmem =>
    refine readList_bind fun placeList hlist => ?_
    refine bang_bind fun firebaseUser hsigned => ?_
    have hs : sees firebaseUser.uid p := hs firebaseUser hsigned
    obtain ⟨-, ids, hids, hhas⟩ := huser
    rw [hids] at hmem
    have hlistens : ∀ l, placeList.placeListId = some l →
        Admitted sees committed l firebaseUser.uid := by
      intro l hl
      rw [hlist.1] at hl
      cases hl
      exact .page (hhas placeListId hmem) hs
    refine Prog.Respects.void ?_
    exact (PlaceListRepository.inviteContributorToList_keeping hs hlistens _ _).bind
      fun _ => trivial
  · trivial

theorem answerInvite_keeping {currentUser : Option AuthUser} (hs : sees a p)
    (answer : Answer) (inviteId : String) :
    Keeping sees committed (Session.task ⟨currentUser, p, .answerInvite answer inviteId⟩) := by
  refine readInvite_bind fun invite hinvite => ?_
  split
  · next hbutton =>
    -- Which buttons a card has depends on the status of the invite.
    rcases hinvite.2.1 with ⟨hsent, -⟩ | ⟨haccepted | hdeclined, -⟩
    · simp only [InviteList.card, hsent, InviteCard.answers, String.reduceEq, if_false,
        List.mem_cons, List.not_mem_nil, or_false] at hbutton
      rcases hbutton with rfl | rfl
      · exact InviteRepository.acceptInvite_keeping hs hinvite hsent
      · exact InviteRepository.declineInvite_keeping hs hinvite (by simp [hsent])
    · simp only [InviteList.card, haccepted, InviteCard.answers, String.reduceEq, if_false,
        if_true, List.mem_singleton] at hbutton
      subst hbutton
      exact InviteRepository.deleteInvite_keeping hs hinvite (by simp [haccepted])
    · simp only [InviteList.card, hdeclined, InviteCard.answers, if_true,
        List.mem_singleton] at hbutton
      subst hbutton
      exact InviteRepository.declineInvite_keeping hs hinvite (by simp [hdeclined])
  · trivial

theorem changeUsernameMeanwhile_keeping (hs : sees a p) (userName : String) :
    Keeping sees committed (changeUsernameMeanwhile p userName) := by
  refine (DatabaseRepository.checkUsernameAvailability_footprint _).bind fun available => ?_
  split
  · exact readProfile_bind fun user huser =>
      SettingsBloc.updateUsername_keeping hs huser userName
  · trivial

/-- Every session keeps the schema and the rules. -/
theorem Session.task_keeping (s : Session) (hby : s.By a) (hs : sees a s.page) :
    Keeping sees committed s.task := by
  obtain ⟨currentUser, page, use⟩ := s
  have hsigned : ∀ u ∈ currentUser, sees u.uid page := fun u hu => (hby u hu).symm ▸ hs
  cases use with
  | signUp name email =>
    exact DatabaseRepository.createUser_keeping hs (ownUser_signUpUser page name email)
  | pickUsername name email typed userName =>
    exact setUsername_keeping hs ((ownUser_signUpUser page name email).copyWith rfl rfl) userName
  | pickUsernameShown typed userName =>
    exact readProfile_bind fun user huser =>
      setUsername_keeping hs (huser.copyWith rfl rfl) userName
  | uploadPicture putFile downloadUrl name email =>
    refine Prog.Respects.void (Prog.Respects.bind ?_ fun _ => FootprintIf.bang _)
    exact StorageRepository.uploadImage_keeping hs putFile downloadUrl rfl
  | echo =>
    exact readProfile_bind fun user huser => OnboardingBloc.updateUser_keeping hs huser
  | changeUsername userName =>
    exact readProfile_bind fun user huser => changeUsername_keeping hs huser userName
  | changeUsernameMeanwhile userName => exact changeUsernameMeanwhile_keeping hs userName
  | changeName name =>
    exact readProfile_bind fun user huser =>
      DatabaseRepository.updateUser_keeping hs (huser.copyWith rfl rfl)
  | deleteAccount accountDeleted =>
    refine readProfile_bind fun user huser => ?_
    exact (Prog.respects_ofExcept _).bind fun _ =>
      DatabaseRepository.deleteUserData_keeping hs huser
  | completeProfile name userName =>
    exact readProfile_bind fun user huser =>
      UserRepository.updateUser_keeping hs (huser.copyWith rfl rfl)
  | resetPicture putFile downloadUrl =>
    exact readProfile_bind fun user huser =>
      StorageRepository.uploadImage_keeping hs putFile downloadUrl huser.1
  | createList name =>
    exact bang_bind fun firebaseUser hu =>
      PlaceListRepository.createPlaceList_keeping (hsigned firebaseUser hu) rfl rfl
  | editList placeListId name icon =>
    have hread : editListDialog placeListId name icon =
        (readList placeListId).bind fun placeList => SavedListsBloc.updateSavedLists
          (placeList.copyWith { name := some name, icon := icon }) :=
      (Prog.bind_assoc _ _ _).symm
    show Keeping sees committed (editListDialog placeListId name icon)
    rw [hread]
    refine readList_bind fun placeList hlist => ?_
    exact PlaceListRepository.updatePlaceLists_keeping
      (hlist.copyWith (c := { name := some name, icon := icon }) rfl rfl rfl)
  | pickIcon placeListId icon =>
    refine readList_bind fun placeList hlist => ?_
    exact PlaceListRepository.updatePlaceLists_keeping
      (hlist.copyWith (c := { icon := some icon }) rfl rfl rfl)
  | deleteList placeListId =>
    exact readList_bind fun placeList hlist => bang_bind fun firebaseUser hu =>
      PlaceListRepository.removePlaceList_keeping (hsigned firebaseUser hu) hlist
  | inviteTo placeListId userName inviterUsername =>
    exact inviteTo_keeping hsigned placeListId userName inviterUsername
  | answerInvite answer inviteId => exact answerInvite_keeping hs answer inviteId
  | addPlace place placeList => exact PlaceListRepository.addPlaceToList_keeping place placeList
  | editPlaces selectedPlaces event =>
    exact Conforms.forM (editPlaces_keeping _ _ _ selectedPlaces event)
  | addPlaceByName place placeListId docId =>
    exact PlaceListRepository.placeWrite_keeping place placeListId docId

/-- What starts in a run of the app. -/
theorem AppStarts.keeping {st st' : AppState} {t : App Unit} (h : AppStarts sees st st' t) :
    Untouched st st' ∧ (Obeys (AppSchema sees committed) (ListensFor sees committed) st →
      Keeping sees committed t) := by
  cases h with
  | session s hby hs => exact ⟨.refl st, fun _ => s.task_keeping hby hs⟩
  | @snapshot pre post l snap hfeed =>
    refine ⟨⟨rfl, rfl, rfl, fun x hx => ?_⟩, fun hobeys => ?_⟩
    · rw [hfeed]
      rcases List.mem_append.mp hx with hx | hx
      · exact List.mem_append_left _ hx
      · exact List.mem_append_right _ (List.mem_cons_of_mem _ hx)
    · exact Listener.onSnapshot_keeping (hobeys.feed (l, snap) (by rw [hfeed]; simp)) snap

/-- What the run commits being committed, the app keeps its documents and its
listeners as they should be, and has written only what is allowed. -/
theorem AppRun.obeys {c c' : Pool AppState (App Unit)} (h : AppRun sees c c')
    (hlog : ∀ w ∈ c'.state.log, committed w)
    (h0 : Obeys (AppSchema sees committed) (ListensFor sees committed) c.state)
    (hts : ∀ t ∈ c.threads, Keeping sees committed t) :
    Obeys (AppSchema sees committed) (ListensFor sees committed) c'.state ∧
      Changed (Allowed sees committed) c.state c'.state :=
  Obeys.run (fun _ _ _ ht => ht.keeping) h hlog h0 hts

/-- The user for whom the listener works has been signed in. -/
def WorksFor (sees : String → String → Prop) : Listener → Prop
  | .inviteContributor _ firebaseUser _ _ => ∃ p, sees firebaseUser.uid p

/-- The listeners that are open work for users who have been signed in. -/
structure Listening (sees : String → String → Prop) (st : AppState) : Prop where
  listeners : ∀ x ∈ st.listeners, WorksFor sees x.2
  feed : ∀ x ∈ st.feed, WorksFor sees x.1

/-- When nothing is known of the writes, every list may be worked on. -/
theorem WorksFor.listensFor {l : Listener} (h : WorksFor sees l) :
    ListensFor sees (fun _ => True) l := by
  cases l
  exact ⟨h, hasRegistered_of_true _, fun l _ => admitted_of_true l _⟩

/-- A run from a database whose documents can be read. -/
theorem AppRun.obeys_of_decode {c c' : Pool AppState (App Unit)} (h : AppRun sees c c')
    (hts : c.Quiet) (h0 : AllDecode c.state.store) (hl : Listening sees c.state) :
    Obeys (AppSchema sees fun _ => True) (ListensFor sees fun _ => True) c'.state ∧
      Changed (Allowed sees (fun _ => True)) c.state c'.state :=
  h.obeys (fun _ _ => trivial)
    ⟨fun p d hd => (h0 p d hd).appDoc, fun x hx => (hl.listeners x hx).listensFor,
      fun x hx => (hl.feed x hx).listensFor⟩
    fun t ht => Prog.respects_of_ended (hts t ht)

/-- A run from the empty database; what is committed is what is in its log. -/
theorem AppRun.obeys_of_empty {c : Pool AppState (App Unit)}
    (h : AppRun sees ⟨{ store := ∅ }, []⟩ c) :
    Obeys (AppSchema sees fun w => w ∈ c.state.log) (ListensFor sees fun w => w ∈ c.state.log)
        c.state ∧
      Changed (Allowed sees (fun w => w ∈ c.state.log)) { store := ∅ } c.state :=
  h.obeys (fun _ hw => hw)
    ⟨Typed.empty fun _ => appSchema_none, fun _ hx => absurd hx List.not_mem_nil,
      fun _ hx => absurd hx List.not_mem_nil⟩
    (by simp)

/-- So its writes are allowed. -/
theorem AppRun.allowed {c : Pool AppState (App Unit)} (h : AppRun sees ⟨{ store := ∅ }, []⟩ c)
    {w : Write Path} (hw : w ∈ c.state.log) :
    Allowed sees (fun w => w ∈ c.state.log) w := by
  rcases h.obeys_of_empty.2.log w hw with hempty | hallowed
  · cases hempty
  · exact hallowed

/-- Whatever the users do at the same time, and whichever requests fail or are
late: if every document can be read where it lies, that stays so. -/
theorem stored_decodes {c c' : Pool AppState (App Unit)} (h : AppRun (fun _ _ => True) c c')
    (hts : c.Quiet) (h0 : AllDecode c.state.store) : AllDecode c'.state.store := by
  have hl : Listening (fun _ _ => True) c.state := by
    constructor
    · rintro ⟨p, l⟩ -
      cases l
      exact ⟨"", trivial⟩
    · rintro ⟨l, snap⟩ -
      cases l
      exact ⟨"", trivial⟩
  exact fun p d hd => ((h.obeys_of_decode hts h0 hl).1.store p d hd).decodes

/-- Ada has signed up and made a list; the write that links it to her has
failed. -/
theorem stored_decodes_ada : ∃ c : Pool AppState (App Unit),
    (c.state.store.get (.users "ada")).isSome ∧ (c.state.store.get (.placeLists "rome")).isSome ∧
      AllDecode c.state.store := by
  have hplay : ∃ c : Pool AppState (App Unit), AppRun (fun _ _ => True) ⟨{ store := ∅ }, []⟩ c ∧
      (c.state.store.get (.users "ada")).isSome ∧
        (c.state.store.get (.placeLists "rome")).isSome :=
    AppRun.exists_playMoves
      [.start (.session ⟨some { uid := "ada" }, "ada", .signUp "Ada" none⟩),
        .start (.session ⟨some { uid := "ada" }, "ada", .createList "Rome"⟩),
        .adv 0 { draw := "rome" }, .adv 1 {}, .adv 0 {}, .adv 0 { fault := true }]
      (by decide)
  obtain ⟨c, hrun, huser, hlist⟩ := hplay
  refine ⟨c, huser, hlist, stored_decodes hrun (by simp [Quiet]) fun p d hd => ?_⟩
  rw [Store.get_empty] at hd
  cases hd

end GottaGo
