/-
GottaGo.Session.Profile — the profile and the account that is signed in.

One process of the app has three notions of its user: Firebase's current
user, which `createPlaceList` reads, the user of `AuthBloc`, which hears
of an auth change later, and the user of `ProfileBloc`, which is created
once, for the account that `AuthBloc` is authenticated as then, and never
reset. `profile_belongs`: the three agree in the runs in which no other
account is left or comes once `ProfileBloc` is there, and then a list that
`CreateListDialog` creates has the owner whose document receives it, if
the button is pressed while the profile is loaded. In
`profile_of_another` the account is switched.
-/
import GottaGo.Bloc.Handlers
import GottaGo.Bloc.Profile
import GottaGo.Repository.Footprints
import GottaGo.Session.Follows

namespace GottaGo

open GottaGo.Async GottaGo.Firestore

/-! ## One process -/

/-- `onTheWay` holds the auth changes that `AuthBloc` has not heard of,
`adding` the lists of the `AddList` events that are not handled yet, and
`created` the calls of `createPlaceList`. -/
structure Process where
  currentUser : Option AuthUser := none
  onTheWay : List (Option AuthUser) := []
  auth : AuthBloc := {}
  profile : Option ProfileBloc := none
  adding : List PlaceList := []
  created : List (AuthUser × PlaceList) := []

namespace Process

/-- What happens: Firebase signs in or out, `AuthBloc` hears of it, gets a
snapshot or an answer, `ProfileBloc` is read for the first time, gets a
snapshot, an edit of a page or what else happens to it, the button of
`CreateListDialog` is pressed, and the handler of `AddList` runs. -/
inductive Happening where
  | account (authUser : Option AuthUser)
  | authChange
  | userSnapshot (i : Nat) (snap : Option Doc)
  | answer (k : Nat) (revCat : RevCatAnswer)
  | readProfile
  | editProfile (name userName : String)
  | editPicture
  | resetProfile
  | profileChanged (i : Nat)
  | profileSnapshot (i : Nat) (snap : Option Doc)
  | profileEdited (k : Nat) (returns : Bool)
  | createList (name : String)
  | addList

/-- What happens to `AuthBloc`. -/
def inAuth (s : Process) (e : AuthBloc.Event) : Option Process :=
  (s.auth.step e).map fun auth => { s with auth := auth }

/-- What happens to `ProfileBloc`, once it is there. -/
def inProfile (s : Process) (e : ProfileBloc → ProfileBloc.Event) : Option Process :=
  s.profile.bind fun profile =>
    (profile.step (e profile)).map fun profile => { s with profile := some profile }

/-- The first read of `ProfileBloc`. -/
def readProfile (s : Process) : Process :=
  match s.auth.state with
  | .authenticated authUser _ =>
    { s with profile := some (ProfileBloc.create authUser.uid) }
  -- `state.authUser!` throws
  | _ => s

/-- The button of `CreateListDialog`. -/
def createList (s : Process) (profile : ProfileBloc) (name : String) : Process :=
  match profile.state.user.id with
  | some userId => { s with adding := s.adding ++ [createListDialog userId name] }
  | none => s

/-- The handler of `AddList`, which calls `createPlaceList`. -/
def addList (s : Process) : Option Process :=
  match s.adding with
  | [] => none
  | placeList :: adding =>
    match s.currentUser with
    | some firebaseUser =>
      some { s with
        adding := adding
        created := s.created ++ [(firebaseUser, placeList)] }
    -- `currentUser!` throws
    | none => some { s with adding := adding }

def step (s : Process) : Happening → Option Process
  | .account authUser =>
    some { s with
      currentUser := authUser
      onTheWay := s.onTheWay ++ [authUser] }
  | .authChange =>
    match s.onTheWay with
    | [] => none
    | authUser :: onTheWay => { s with onTheWay := onTheWay }.inAuth (.user authUser)
  | .userSnapshot i snap => s.inAuth (.snapshot i snap)
  | .answer k revCat => s.inAuth (.answer k revCat)
  | .readProfile => if s.profile.isNone then some s.readProfile else none
  | .editProfile name userName =>
    s.inProfile fun profile =>
      .updateProfile (profile.state.user.copyWith { name := some name, userName := some userName })
  | .editPicture => s.inProfile fun profile => .updateProfilePicture profile.state.user
  | .resetProfile => s.inProfile fun _ => .resetProfile
  | .profileChanged i => s.inProfile fun _ => .changed i
  | .profileSnapshot i snap => s.inProfile fun _ => .snapshot i snap
  | .profileEdited k returns => s.inProfile fun _ => .edited k returns
  | .createList name => s.profile.map fun profile => s.createList profile name
  | .addList => s.addList

/-! ## Whose profile and whose lists -/

/-- A write of a call that creates a list for `owner`. -/
def CreatesFor (owner : String) : Write Path → Prop
  | .set (.placeLists _) d => d.get? "listOwnerId" = some (.str owner)
  | .update (.users uid) _ => uid = owner
  | _ => False

/-- A loaded profile is that of the account `AuthBloc` is authenticated as,
when all of its snapshots have come. -/
def ProfileOwned (s : Process) : Prop :=
  ∀ profile user uid, s.profile = some profile → profile.state = .loaded user →
    profile.due = [] → s.auth.state.account = some uid → user.id = some uid

/-- Every list that is created has the owner whose document receives it. -/
def ListsOwned (s : Process) : Prop :=
  ∀ c ∈ s.created, ∃ owner, FootprintIf (fun _ _ => True) (CreatesFor owner) (fun _ => True)
    (PlaceListRepository.createPlaceList c.1 c.2)

/-! ## One account -/

/-- Nobody, or the account `uid`. -/
def only (uid : String) (account : Option String) : Bool := account.all fun v => v = uid

/-- The promise of a process with one account. -/
def keepsAccount (s : Process) : Happening → Bool
  | .readProfile =>
    match s.auth.state.account with
    | some uid =>
      only uid (s.currentUser.map AuthUser.uid) &&
        s.onTheWay.all (fun a => only uid (a.map AuthUser.uid)) &&
        s.auth.running.all fun h => only uid h.event.account
    | none => true
  | .account authUser => s.profile.all fun p => only p.userId (authUser.map AuthUser.uid)
  | .userSnapshot i _ =>
    s.profile.all fun p => only p.userId (s.auth.listeners[i]?.map AuthUser.uid)
  | .createList _ =>
    s.profile.all fun p =>
      match p.state with
      | .loaded _ => true
      | .loading => false
  | _ => true

@[simp] theorem only_eq_true {uid : String} {account : Option String} :
    only uid account = true ↔ ∀ v ∈ account, v = uid := by
  cases account <;> simp [only]

/-- `AuthBloc` is about nobody else: neither its state nor a handler. -/
structure OnlyOf (uid : String) (auth : AuthBloc) : Prop where
  running : ∀ h ∈ auth.running, ∀ v ∈ h.event.account, v = uid
  state : ∀ v ∈ auth.state.account, v = uid

variable {auth auth' : AuthBloc} {uid : String}

theorem OnlyOf.add (h : OnlyOf uid auth) {event : AuthUserChanged}
    (hevent : ∀ v ∈ event.account, v = uid) : OnlyOf uid (auth.add event) where
  running x hx := by
    rcases List.mem_append.mp hx with hx | hx
    · exact h.running x hx
    · rw [List.mem_singleton] at hx
      subst hx
      exact hevent
  state := h.state

theorem OnlyOf.onUser (h : OnlyOf uid auth) (authUser : Option AuthUser) :
    OnlyOf uid (auth.onUser authUser) := by
  cases authUser with
  | some authUser => exact ⟨h.running, h.state⟩
  | none =>
    have hchanged : OnlyOf uid { auth with changes := auth.changes ++ [none] } :=
      ⟨h.running, h.state⟩
    exact hchanged.add (by simp [AuthUserChanged.account])

theorem OnlyOf.answer (h : OnlyOf uid auth) (hfaithful : auth.Faithful) {k : Nat}
    {revCat : RevCatAnswer} (hstep : auth.step (.answer k revCat) = some auth') :
    OnlyOf uid auth' := by
  obtain ⟨x, rest, hx, hrest, rfl⟩ := AuthBloc.answer_cases hstep
  have hmem := List.mem_of_getElem? hx
  have hreturns := (hfaithful x hmem).answer hrest
  cases rest with
  | ret state =>
    refine ⟨fun y hy => h.running y (List.mem_of_mem_eraseIdx hy), ?_⟩
    have haccount : state.account = x.event.account := hreturns
    intro v hv
    have hv' : v ∈ state.account := hv
    rw [haccount] at hv'
    exact h.running x hmem v hv'
  | raise e => exact ⟨fun y hy => h.running y (List.mem_of_mem_eraseIdx hy), h.state⟩
  | ask q kont =>
    refine ⟨?_, h.state⟩
    intro y hy
    rcases List.mem_or_eq_of_mem_set hy with hy | rfl
    · exact h.running y hy
    · exact h.running x hmem

theorem OnlyOf.snapshot (h : OnlyOf uid auth) {i : Nat} {snap : Option Doc}
    (hlistener : ∀ authUser, auth.listeners[i]? = some authUser → authUser.uid = uid)
    (hstep : auth.step (.snapshot i snap) = some auth') : OnlyOf uid auth' := by
  obtain ⟨authUser, hi, rfl | ⟨user, rfl⟩⟩ := AuthBloc.snapshot_cases hstep
  · exact h
  · apply h.add
    intro v hv
    cases hv
    exact hlistener authUser hi

/-- All of the process is about the user that `ProfileBloc` was created
for. -/
structure Owned (s : Process) (profile : ProfileBloc) : Prop where
  currentUser : ∀ v ∈ s.currentUser.map AuthUser.uid, v = profile.userId
  onTheWay : ∀ a ∈ s.onTheWay, ∀ v ∈ a.map AuthUser.uid, v = profile.userId
  auth : OnlyOf profile.userId s.auth
  oneUser : profile.OneUser
  adding : ∀ l ∈ s.adding, l.listOwnerId = profile.userId
  created : ∀ c ∈ s.created, c.1.uid = profile.userId ∧ c.2.listOwnerId = profile.userId

variable {s s' : Process} {profile : ProfileBloc}

theorem inAuth_eq_some {e : AuthBloc.Event} (h : s.inAuth e = some s') :
    ∃ auth, s.auth.step e = some auth ∧ s' = { s with auth := auth } := by
  obtain ⟨auth, hauth, rfl⟩ := Option.map_eq_some_iff.mp h
  exact ⟨auth, hauth, rfl⟩

theorem inProfile_eq_some {e : ProfileBloc → ProfileBloc.Event}
    (h : s.inProfile e = some s') : ∃ profile profile', s.profile = some profile ∧
      profile.step (e profile) = some profile' ∧ s' = { s with profile := some profile' } := by
  obtain ⟨profile, hprofile, hstep⟩ := Option.bind_eq_some_iff.mp h
  obtain ⟨profile', hprofile', rfl⟩ := Option.map_eq_some_iff.mp hstep
  exact ⟨profile, profile', hprofile, hprofile', rfl⟩

/-! ## Every happening keeps it -/

theorem Owned.withAuth (h : s.Owned profile) (hauth : OnlyOf profile.userId auth) :
    { s with auth := auth }.Owned profile :=
  ⟨h.currentUser, h.onTheWay, hauth, h.oneUser, h.adding, h.created⟩

/-- What happens to `ProfileBloc`, by a page that reads its state. -/
theorem Owned.inProfile (h : s.Owned profile) (hprofile : s.profile = some profile)
    {e : ProfileBloc → ProfileBloc.Event}
    (hedit : ∀ user, e profile = .updateProfile user ∨ e profile = .updateProfilePicture user →
      profile.isMine user)
    (hstep : s.inProfile e = some s') :
    ∃ profile', s'.profile = some profile' ∧ s'.Owned profile' := by
  obtain ⟨p, profile', hp, hstep, rfl⟩ := inProfile_eq_some hstep
  rw [hprofile] at hp
  cases hp
  obtain ⟨hone, hid⟩ := h.oneUser.step hedit hstep
  refine ⟨profile', rfl, ?_⟩
  refine ⟨?_, ?_, ?_, hone, ?_, ?_⟩ <;> rw [hid]
  · exact h.currentUser
  · exact h.onTheWay
  · exact h.auth
  · exact h.adding
  · exact h.created

theorem Owned.addList (h : s.Owned profile) (hstep : s.addList = some s') :
    s'.profile = s.profile ∧ s'.Owned profile := by
  unfold Process.addList at hstep
  split at hstep
  · cases hstep
  · next placeList adding hadding =>
    have hlist := h.adding placeList (hadding ▸ List.mem_cons_self)
    have hrest : ∀ l ∈ adding, l.listOwnerId = profile.userId :=
      fun l hl => h.adding l (hadding ▸ List.mem_cons_of_mem _ hl)
    split at hstep
    · next firebaseUser huser =>
      cases hstep
      refine ⟨rfl, h.currentUser, h.onTheWay, h.auth, h.oneUser, hrest, ?_⟩
      intro c hc
      rcases List.mem_append.mp hc with hc | hc
      · exact h.created c hc
      · rw [List.mem_singleton.mp hc]
        exact ⟨h.currentUser _ (by rw [huser]; rfl), hlist⟩
    · cases hstep
      exact ⟨rfl, h.currentUser, h.onTheWay, h.auth, h.oneUser, hrest, h.created⟩

theorem Owned.createList (h : s.Owned profile) {user : User}
    (hloaded : profile.state = .loaded user) (name : String) :
    (s.createList profile name).profile = s.profile ∧
      (s.createList profile name).Owned profile := by
  have hid := h.oneUser.state user hloaded
  simp only [Process.createList, ProfileState.user, hloaded, hid]
  refine ⟨trivial, h.currentUser, h.onTheWay, h.auth, h.oneUser, ?_, h.created⟩
  intro l hl
  rcases List.mem_append.mp hl with hl | hl
  · exact h.adding l hl
  · rw [List.mem_singleton.mp hl]
    rfl

theorem Owned.step (h : s.Owned profile) (hprofile : s.profile = some profile)
    (hfaithful : s.auth.Faithful) {e : Happening} (hok : keepsAccount s e = true)
    (hstep : Process.step s e = some s') :
    ∃ profile', s'.profile = some profile' ∧ s'.Owned profile' := by
  have hread := h.oneUser.isMine_user
  cases e with
  | account authUser =>
    simp only [keepsAccount, hprofile, Option.all_some, only_eq_true] at hok
    cases hstep
    refine ⟨profile, hprofile, hok, ?_, h.auth, h.oneUser, h.adding, h.created⟩
    intro a ha
    rcases List.mem_append.mp ha with ha | ha
    · exact h.onTheWay a ha
    · rw [List.mem_singleton.mp ha]
      exact hok
  | authChange =>
    simp only [Process.step] at hstep
    split at hstep
    · cases hstep
    · next authUser onTheWay hway =>
      obtain ⟨auth, hauth, rfl⟩ := inAuth_eq_some hstep
      cases hauth
      refine ⟨profile, hprofile, h.currentUser, ?_, h.auth.onUser authUser, h.oneUser,
        h.adding, h.created⟩
      exact fun a ha => h.onTheWay a (hway ▸ List.mem_cons_of_mem _ ha)
  | userSnapshot i snap =>
    obtain ⟨auth, hauth, rfl⟩ := inAuth_eq_some hstep
    simp only [keepsAccount, hprofile, Option.all_some, only_eq_true] at hok
    refine ⟨profile, hprofile, h.withAuth (h.auth.snapshot ?_ hauth)⟩
    intro authUser hi
    exact hok _ (by rw [hi]; rfl)
  | answer k revCat =>
    obtain ⟨auth, hauth, rfl⟩ := inAuth_eq_some hstep
    exact ⟨profile, hprofile, h.withAuth (h.auth.answer hfaithful hauth)⟩
  | readProfile => simp [Process.step, hprofile] at hstep
  | editProfile name userName =>
    refine h.inProfile hprofile ?_ hstep
    intro user huser
    rcases huser with huser | huser <;> cases huser
    exact hread
  | editPicture =>
    refine h.inProfile hprofile ?_ hstep
    intro user huser
    rcases huser with huser | huser <;> cases huser
    exact hread
  | resetProfile => exact h.inProfile hprofile (by simp) hstep
  | profileChanged i => exact h.inProfile hprofile (by simp) hstep
  | profileSnapshot i snap => exact h.inProfile hprofile (by simp) hstep
  | profileEdited k returns => exact h.inProfile hprofile (by simp) hstep
  | createList name =>
    simp only [keepsAccount, hprofile, Option.all_some] at hok
    simp only [Process.step, hprofile, Option.map_some, Option.some.injEq] at hstep
    split at hok
    · next user hloaded =>
      obtain ⟨hsame, howned⟩ := h.createList hloaded name
      exact ⟨profile, by rw [← hstep, hsame, hprofile], hstep ▸ howned⟩
    · cases hok
  | addList =>
    obtain ⟨hsame, howned⟩ := h.addList hstep
    exact ⟨profile, hsame.trans hprofile, howned⟩

/-- `ProfileBloc` is created for the account that the whole process is
about. -/
theorem owned_readProfile (hadding : s.adding = []) (hcreated : s.created = [])
    (hok : keepsAccount s .readProfile = true) :
    s.readProfile = s ∨ ∃ profile, s.readProfile.profile = some profile ∧
      s.readProfile.Owned profile := by
  cases hstate : s.auth.state with
  | unknown =>
    refine .inl ?_
    simp [readProfile, hstate]
  | unauthenticated =>
    refine .inl ?_
    simp [readProfile, hstate]
  | authenticated authUser user =>
    have haccount : s.auth.state.account = some authUser.uid := by rw [hstate]; rfl
    have hread : s.readProfile =
        { s with profile := some (ProfileBloc.create authUser.uid) } := by
      simp [readProfile, hstate]
    have hid : (ProfileBloc.create authUser.uid).userId = authUser.uid :=
      ProfileBloc.loadProfile_userId _ _
    simp only [keepsAccount, haccount, Bool.and_eq_true, List.all_eq_true, only_eq_true] at hok
    obtain ⟨⟨huser, hway⟩, hrunning⟩ := hok
    refine .inr ⟨_, by rw [hread], ?_⟩
    rw [hread]
    refine ⟨?_, ?_, ?_, ProfileBloc.oneUser_create _, by simp [hadding], by simp [hcreated]⟩
    · rw [hid]
      exact huser
    · rw [hid]
      exact hway
    · rw [hid]
      refine ⟨hrunning, ?_⟩
      rw [haccount]
      intro v hv
      cases hv
      rfl

/-- Before `ProfileBloc` is there, no list is created. -/
theorem step_before (hprofile : s.profile = none) (hadding : s.adding = [])
    (hcreated : s.created = []) {e : Happening} (hok : keepsAccount s e = true)
    (hstep : Process.step s e = some s') :
    (s'.profile = none ∧ s'.adding = [] ∧ s'.created = []) ∨
      ∃ profile, s'.profile = some profile ∧ s'.Owned profile := by
  have hnone : ∀ e : ProfileBloc → ProfileBloc.Event, s.inProfile e ≠ some s' := by
    intro e h
    simp [inProfile, hprofile] at h
  cases e with
  | account authUser =>
    cases hstep
    exact .inl ⟨hprofile, hadding, hcreated⟩
  | authChange =>
    simp only [Process.step] at hstep
    split at hstep
    · cases hstep
    · obtain ⟨auth, -, rfl⟩ := inAuth_eq_some hstep
      exact .inl ⟨hprofile, hadding, hcreated⟩
  | userSnapshot i snap =>
    obtain ⟨auth, -, rfl⟩ := inAuth_eq_some hstep
    exact .inl ⟨hprofile, hadding, hcreated⟩
  | answer k revCat =>
    obtain ⟨auth, -, rfl⟩ := inAuth_eq_some hstep
    exact .inl ⟨hprofile, hadding, hcreated⟩
  | readProfile =>
    simp only [Process.step, hprofile, Option.isNone_none, if_true, Option.some.injEq] at hstep
    subst hstep
    rcases owned_readProfile hadding hcreated hok with hsame | howned
    · rw [hsame]
      exact .inl ⟨hprofile, hadding, hcreated⟩
    · exact .inr howned
  | editProfile name userName => exact absurd hstep (hnone _)
  | editPicture => exact absurd hstep (hnone _)
  | resetProfile => exact absurd hstep (hnone _)
  | profileChanged i => exact absurd hstep (hnone _)
  | profileSnapshot i snap => exact absurd hstep (hnone _)
  | profileEdited k returns => exact absurd hstep (hnone _)
  | createList name => simp [Process.step, hprofile] at hstep
  | addList => simp [Process.step, Process.addList, hadding] at hstep

/-- What happens to `AuthBloc` is a step of it, if anything. -/
theorem step_auth {e : Happening} (hstep : Process.step s e = some s') :
    s'.auth = s.auth ∨ ∃ e', s.auth.step e' = some s'.auth := by
  have hauth : ∀ {e'}, s.inAuth e' = some s' → s.auth.step e' = some s'.auth := by
    intro e' h
    obtain ⟨auth, hauth, rfl⟩ := inAuth_eq_some h
    exact hauth
  have hsame : ∀ {e' : ProfileBloc → ProfileBloc.Event}, s.inProfile e' = some s' →
      s'.auth = s.auth := by
    intro e' h
    obtain ⟨profile, profile', -, -, rfl⟩ := inProfile_eq_some h
    rfl
  cases e with
  | account authUser =>
    cases hstep
    exact .inl rfl
  | authChange =>
    simp only [Process.step] at hstep
    split at hstep
    · cases hstep
    · obtain ⟨auth, hchange, rfl⟩ := inAuth_eq_some hstep
      exact .inr ⟨_, hchange⟩
  | userSnapshot i snap => exact .inr ⟨_, hauth hstep⟩
  | answer k revCat => exact .inr ⟨_, hauth hstep⟩
  | readProfile =>
    simp only [Process.step] at hstep
    split at hstep
    · cases hstep
      unfold Process.readProfile
      split <;> exact .inl rfl
    · cases hstep
  | editProfile name userName => exact .inl (hsame hstep)
  | editPicture => exact .inl (hsame hstep)
  | resetProfile => exact .inl (hsame hstep)
  | profileChanged i => exact .inl (hsame hstep)
  | profileSnapshot i snap => exact .inl (hsame hstep)
  | profileEdited k returns => exact .inl (hsame hstep)
  | createList name =>
    obtain ⟨profile, -, rfl⟩ := Option.map_eq_some_iff.mp hstep
    unfold Process.createList
    split <;> exact .inl rfl
  | addList =>
    have h : s.addList = some s' := hstep
    unfold Process.addList at h
    split at h
    · cases h
    · split at h <;> cases h <;> exact .inl rfl

/-- The invariant: `ProfileBloc` is not there, or its user owns the
process. -/
structure Belongs (s : Process) : Prop where
  faithful : s.auth.Faithful
  before : s.profile = none → s.adding = [] ∧ s.created = []
  owned : ∀ profile, s.profile = some profile → s.Owned profile

theorem belongs_empty : Belongs {} where
  faithful := AuthBloc.faithful_empty
  before _ := ⟨rfl, rfl⟩
  owned _ h := by cases h

theorem Belongs.step (h : s.Belongs) {e : Happening} (hok : keepsAccount s e = true)
    (hstep : Process.step s e = some s') : s'.Belongs := by
  have hfaithful : s'.auth.Faithful := by
    rcases step_auth hstep with hsame | ⟨e', hauth⟩
    · rw [hsame]
      exact h.faithful
    · exact h.faithful.step hauth
  have hcases : (s'.profile = none ∧ s'.adding = [] ∧ s'.created = []) ∨
      ∃ profile, s'.profile = some profile ∧ s'.Owned profile := by
    cases hprofile : s.profile with
    | none =>
      obtain ⟨hadding, hcreated⟩ := h.before hprofile
      exact step_before hprofile hadding hcreated hok hstep
    | some profile => exact .inr ((h.owned profile hprofile).step hprofile h.faithful hok hstep)
  rcases hcases with ⟨hnone, hlists⟩ | ⟨profile, hprofile, howned⟩
  · refine ⟨hfaithful, fun _ => hlists, ?_⟩
    simp [hnone]
  · refine ⟨hfaithful, by simp [hprofile], ?_⟩
    intro p hp
    rw [hprofile] at hp
    cases hp
    exact howned

/-! ## The profile belongs to the account -/

/-- A list of the current user is created for the current user. -/
theorem createPlaceList_createsFor {firebaseUser : AuthUser} {placeList : PlaceList}
    (h : placeList.listOwnerId = firebaseUser.uid) :
    FootprintIf (fun _ _ => True) (CreatesFor firebaseUser.uid) (fun _ => True)
      (PlaceListRepository.createPlaceList firebaseUser placeList) := by
  refine rethrowing_footprint ?_
  refine (FootprintIf.newDoc _).bind fun id => ?_
  cases hfields : (placeList.copyWith { placeListId := some id }).toDocument with
  | error e => trivial
  | ok fields =>
    have howner : (Doc.ofList fields).get? "listOwnerId" = some (.str firebaseUser.uid) := by
      unfold PlaceList.toDocument at hfields
      split at hfields
      · cases hfields
      · cases hfields
        rw [← h, Doc.get?_ofList]
        rfl
    refine (FootprintIf.set howner).bind fun _ => ?_
    exact FootprintIf.update rfl

/-- In a process with one account, a loaded profile is that of the account
that is signed in, and every list that is created has the owner whose
document receives it. -/
theorem profile_belongs (happenings : List Happening) (s : Process)
    (h : Events.replay step keepsAccount {} happenings = some s) :
    s.ProfileOwned ∧ s.ListsOwned := by
  have hbelongs : s.Belongs := by
    apply Events.replay_invariant (J := Belongs) h belongs_empty
    intro s e s' hs hok hstep
    exact hs.step hok hstep
  constructor
  · intro profile user uid hprofile hloaded _ haccount
    have howned := hbelongs.owned profile hprofile
    rw [howned.oneUser.state user hloaded, howned.auth.state uid haccount]
  · intro c hc
    cases hprofile : s.profile with
    | none => simp [(hbelongs.before hprofile).2] at hc
    | some profile =>
      obtain ⟨huser, howner⟩ := (hbelongs.owned profile hprofile).created c hc
      exact ⟨c.1.uid, createPlaceList_createsFor (howner.trans huser.symm)⟩

/-- `uid` signs in, and `AuthBloc` is authenticated as it; `i` is the number
of its listener. -/
def signInRun (uid : String) (i : Nat) : List Happening :=
  [.account (some { uid := uid }), .authChange, .userSnapshot i (some (userDoc uid [])),
    .answer 0 AuthBloc.answering, .answer 0 AuthBloc.answering]

def signOutRun : List Happening := [.account none, .authChange, .answer 0 AuthBloc.answering]

/-- The profile of `uid` is read and loaded. -/
def profileRun (uid : String) : List Happening :=
  [.readProfile, .profileSnapshot 0 (some (userDoc uid []))]

/-- `ada` creates a list, signs out and signs in again. -/
def oneAccountRun : List Happening :=
  signInRun "ada" 0 ++ profileRun "ada" ++ [.createList "Rome", .addList] ++ signOutRun ++
    signInRun "ada" 1

/-- The account that is authenticated, and the user of a loaded profile
with no snapshot on its way. -/
def shown (s : Process) : Option (String × Option String) :=
  match s.auth.state.account, s.profile with
  | some uid, some profile =>
    match profile.state with
    | .loaded user => if profile.due = [] then some (uid, user.id) else none
    | .loading => none
  | _, _ => none

theorem ProfileOwned.shown (h : s.ProfileOwned) {uid : String} {id : Option String}
    (hshown : s.shown = some (uid, id)) : id = some uid := by
  unfold Process.shown at hshown
  split at hshown
  · next v profile haccount hprofile =>
    split at hshown
    · next user hloaded =>
      split at hshown
      · next hdue =>
        cases hshown
        exact h profile user uid hprofile hloaded hdue haccount
      · cases hshown
    · cases hshown
  · cases hshown

theorem profile_belongs_ada :
    ∃ s, Events.replay step keepsAccount {} oneAccountRun = some s ∧
      s.shown = some ("ada", some "ada") ∧ s.created.length = 1 ∧ s.ProfileOwned ∧
      s.ListsOwned := by
  have hrun : (Events.replay step keepsAccount {} oneAccountRun).any (fun s =>
      s.shown = some ("ada", some "ada") ∧ s.created.length = 1) = true := by decide
  obtain ⟨s, hs, hends⟩ := (Option.any_eq_true _ _).mp hrun
  obtain ⟨hshown, hcreated⟩ := of_decide_eq_true hends
  exact ⟨s, hs, hshown, hcreated, profile_belongs oneAccountRun s hs⟩

/-- `ada` signs out and `bob` signs in. -/
def switchedRun : List Happening :=
  signInRun "ada" 0 ++ profileRun "ada" ++ signOutRun ++ signInRun "bob" 1

theorem profile_of_another :
    ¬ ∀ happenings s, Events.replay step Events.free {} happenings = some s →
      s.ProfileOwned ∧ s.ListsOwned := by
  intro hclaim
  have hrun : (Events.replay step Events.free {} switchedRun).any (fun s =>
      s.shown = some ("bob", some "ada")) = true := by decide
  obtain ⟨s, hs, hends⟩ := (Option.any_eq_true _ _).mp hrun
  have hsame := (hclaim switchedRun s hs).1.shown (of_decide_eq_true hends)
  simp at hsame

end Process

end GottaGo
