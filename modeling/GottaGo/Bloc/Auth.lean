/-
GottaGo.Bloc.Auth — `AuthBloc`, the state machine
(`lib/bloc/bloc/auth/bloc/`).

Every sign-in opens a listener on the document of its user, which nothing
ever cancels; every snapshot of it, and every sign-out, adds an
`AuthUserChanged`. The handlers of these run concurrently: each waits for
the plugin up to twice and emits at its end, unless one of the calls
throws.

`changes`, `added` and `emitted` record what has happened. The number of
auth changes so far is the number a handler goes by here; the bloc itself
keeps no such number.
-/
import GottaGo.Repository.Purchases
import GottaGo.Repository.Database

namespace GottaGo

open GottaGo.Async GottaGo.Firestore

/-- The states of `AuthBloc`. -/
inductive AuthState where
  | unknown
  | authenticated (authUser : AuthUser) (user : User)
  | unauthenticated

/-- The account of an authenticated state. -/
def AuthState.account : AuthState → Option String
  | .authenticated authUser _ => some authUser.uid
  | _ => none

structure AuthUserChanged where
  authUser : Option AuthUser
  user : Option User := none

namespace AuthUserChanged

/-- The account that is signed in, none after a sign-out. -/
def account (event : AuthUserChanged) : Option String := event.authUser.map AuthUser.uid

end AuthUserChanged

/-- A handler: the number of auth changes when its event was added, and
what is left of it. -/
structure AuthHandler where
  change : Nat
  event : AuthUserChanged
  rest : RevCat AuthState

structure AuthBloc where
  state : AuthState := .unknown
  changes : List (Option AuthUser) := []
  listeners : List AuthUser := []
  added : List (Nat × AuthUserChanged) := []
  running : List AuthHandler := []
  emitted : List Nat := []

namespace AuthBloc

open PurchasesRepository

/-- The second call of the handler. -/
def followAccount (event : AuthUserChanged) (isUserAnonymous : Option Bool) : RevCat Unit :=
  match event.user, event.authUser with
  | some _, some authUser => loginToRevCat authUser.uid
  | some _, none => .raise .typeError
  | none, _ => if isUserAnonymous = some false then logoutOfRevCat else .ret ()

/-- The handler of `AuthUserChanged`, up to the state it emits. -/
def onAuthUserChanged (event : AuthUserChanged) : RevCat AuthState := do
  let isUserAnonymous ← isUserAnonymous
  followAccount event isUserAnonymous
  match event.authUser, event.user with
  | some authUser, some user => .ret (.authenticated authUser user)
  | some _, none => .raise .typeError
  | none, _ => .ret .unauthenticated

/-- An event is added, and its handler starts. -/
def add (event : AuthUserChanged) (bloc : AuthBloc) : AuthBloc :=
  { bloc with
    added := bloc.added ++ [(bloc.changes.length, event)]
    running := bloc.running ++ [⟨bloc.changes.length, event, onAuthUserChanged event⟩] }

/-- The listener of `_authRepository.user`. -/
def onUser (authUser : Option AuthUser) (bloc : AuthBloc) : AuthBloc :=
  let changed := { bloc with changes := bloc.changes ++ [authUser] }
  match authUser with
  | some authUser => { changed with listeners := changed.listeners ++ [authUser] }
  | none => changed.add { authUser := none }

/-- The listener of `getUser`, for `authUser`. A document that cannot be
read is an error that nobody handles. -/
def onSnapshot (authUser : AuthUser) (snap : Option Doc) (bloc : AuthBloc) : AuthBloc :=
  match User.fromSnapshot authUser.uid snap with
  | .ok user => bloc.add { authUser := some authUser, user := some user }
  | .error _ => bloc

/-- Handler number `k` has come to `rest`. -/
def proceed (k : Nat) (h : AuthHandler) (rest : RevCat AuthState) (bloc : AuthBloc) :
    AuthBloc :=
  match rest with
  | .ret state =>
    { bloc with
      state := state
      emitted := bloc.emitted ++ [h.change]
      running := bloc.running.eraseIdx k }
  | .raise _ => { bloc with running := bloc.running.eraseIdx k }
  | .ask _ _ => { bloc with running := bloc.running.set k { h with rest := rest } }

/-- What happens to the bloc: an auth change, a snapshot for listener
number `i`, and an answer of the plugin to handler number `k`. -/
inductive Event where
  | user (authUser : Option AuthUser)
  | snapshot (i : Nat) (snap : Option Doc)
  | answer (k : Nat) (revCat : RevCatAnswer)

def step (bloc : AuthBloc) : Event → Option AuthBloc
  | .user authUser => some (bloc.onUser authUser)
  | .snapshot i snap => bloc.listeners[i]?.map fun authUser => bloc.onSnapshot authUser snap
  | .answer k revCat =>
    match bloc.running[k]? with
    | some h => (h.rest.answer? revCat).map fun rest => bloc.proceed k h rest
    | none => none

/-! ## What a handler emits -/

/-- A handler emits nothing but the account of its event. -/
theorem returns_onAuthUserChanged (event : AuthUserChanged) :
    (onAuthUserChanged event).Returns fun state => state.account = event.account := by
  apply Prog.returns_bind
  intro isUserAnonymous
  apply Prog.returns_bind
  intro _
  obtain ⟨authUser, user⟩ := event
  cases authUser with
  | none => rfl
  | some authUser => cases user <;> trivial

/-- What is left of a handler emits the account of its event as well. -/
def Faithful (bloc : AuthBloc) : Prop :=
  ∀ h ∈ bloc.running, h.rest.Returns fun state => state.account = h.event.account

variable {bloc bloc' : AuthBloc}

theorem answer_cases {k : Nat} {revCat : RevCatAnswer}
    (h : bloc.step (.answer k revCat) = some bloc') :
    ∃ x rest, bloc.running[k]? = some x ∧ x.rest.answer? revCat = some rest ∧
      bloc' = bloc.proceed k x rest := by
  simp only [step] at h
  split at h
  · next x hx =>
    obtain ⟨rest, hrest, rfl⟩ := Option.map_eq_some_iff.mp h
    exact ⟨x, rest, hx, hrest, rfl⟩
  · cases h

theorem snapshot_cases {i : Nat} {snap : Option Doc}
    (h : bloc.step (.snapshot i snap) = some bloc') :
    ∃ authUser, bloc.listeners[i]? = some authUser ∧ (bloc' = bloc ∨
      ∃ user, bloc' = bloc.add { authUser := some authUser, user := some user }) := by
  obtain ⟨authUser, hi, rfl⟩ := Option.map_eq_some_iff.mp h
  refine ⟨authUser, hi, ?_⟩
  unfold onSnapshot
  split
  · next user _ => exact .inr ⟨user, rfl⟩
  · exact .inl rfl

theorem faithful_empty : Faithful {} := by simp [Faithful]

theorem Faithful.add (h : Faithful bloc) (event : AuthUserChanged) :
    Faithful (bloc.add event) := by
  intro x hx
  rcases List.mem_append.mp hx with hx | hx
  · exact h x hx
  · rw [List.mem_singleton] at hx
    subst hx
    exact returns_onAuthUserChanged event

theorem Faithful.proceed (h : Faithful bloc) {k : Nat} {x : AuthHandler}
    (hx : bloc.running[k]? = some x) {revCat : RevCatAnswer} {rest : RevCat AuthState}
    (hrest : x.rest.answer? revCat = some rest) : Faithful (bloc.proceed k x rest) := by
  have hreturns := (h x (List.mem_of_getElem? hx)).answer hrest
  unfold AuthBloc.proceed
  split
  · exact fun y hy => h y (List.mem_of_mem_eraseIdx hy)
  · exact fun y hy => h y (List.mem_of_mem_eraseIdx hy)
  · intro y hy
    rcases List.mem_or_eq_of_mem_set hy with hy | rfl
    · exact h y hy
    · exact hreturns

theorem Faithful.step (h : Faithful bloc) {e : Event}
    (hstep : AuthBloc.step bloc e = some bloc') : Faithful bloc' := by
  cases e with
  | user authUser =>
    cases hstep
    cases authUser with
    | some authUser => exact h
    | none =>
      have hchanged : Faithful { bloc with changes := bloc.changes ++ [none] } := h
      exact hchanged.add _
  | snapshot i snap =>
    obtain ⟨authUser, -, rfl | ⟨user, rfl⟩⟩ := snapshot_cases hstep
    · exact h
    · exact h.add _
  | answer k revCat =>
    obtain ⟨x, rest, hx, hrest, rfl⟩ := answer_cases hstep
    exact h.proceed hx hrest

end AuthBloc

end GottaGo
