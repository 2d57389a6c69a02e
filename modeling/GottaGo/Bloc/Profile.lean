/-
GottaGo.Bloc.Profile — `ProfileBloc`, the state machine
(`lib/bloc/profile_bloc.dart` with its events and states).

The handler of `LoadProfile` listens to the document of its user and
emits the user of every snapshot. It never ends, unless a snapshot cannot
be read: `asFuture` then cancels the subscription. Handlers run
concurrently, so a later `LoadProfile` leaves the listeners that are
there. The handlers of the two edits load the profile of their own user
again, if the call they await returns.

`due` holds the listeners with a snapshot on its way.
-/
import GottaGo.Model.DocumentsTheorems

namespace GottaGo

open GottaGo.Firestore

/-- `User.empty`. -/
def User.empty : User := { id := some "" }

/-- The states that the bloc emits. -/
inductive ProfileState where
  | loading
  | loaded (user : User)

/-- The user of a state. -/
def ProfileState.user : ProfileState → User
  | .loading => User.empty
  | .loaded user => user

structure ProfileListener where
  userId : String
  isOpen : Bool := true

/-- `userId` is that of the `LoadProfile` in `main.dart`. `edits` holds the
users of the edits whose call has not returned. -/
structure ProfileBloc where
  userId : String
  state : ProfileState := .loading
  listeners : List ProfileListener := []
  due : List Nat := []
  edits : List User := []

namespace ProfileBloc

/-- `LoadProfile`. There is no document with an empty id. -/
def loadProfile (userId : String) (bloc : ProfileBloc) : ProfileBloc :=
  if userId = "" then bloc
  else
    { bloc with
      listeners := bloc.listeners ++ [{ userId := userId }]
      due := bloc.due ++ [bloc.listeners.length] }

/-- The bloc as `main.dart` creates it. -/
def create (userId : String) : ProfileBloc :=
  loadProfile userId { userId := userId }

/-- `UpdateProfile`, up to its call. -/
def updateProfile (user : User) (bloc : ProfileBloc) : ProfileBloc :=
  { bloc with edits := bloc.edits ++ [user] }

/-- `UpdateProfilePicture`, up to its call. -/
def updateProfilePicture (user : User) (bloc : ProfileBloc) : ProfileBloc :=
  { bloc with state := .loading, edits := bloc.edits ++ [user] }

/-- The listener of `getUser`. -/
def onSnapshot (i : Nat) (listener : ProfileListener) (snap : Option Doc)
    (bloc : ProfileBloc) : ProfileBloc :=
  match User.fromSnapshot listener.userId snap with
  | .ok user => { bloc with state := .loaded user, due := bloc.due.erase i }
  | .error _ =>
    { bloc with
      listeners := bloc.listeners.set i { listener with isOpen := false }
      due := bloc.due.filter fun j => j ≠ i }

/-- What happens to the bloc: the events added to it, a change of the
document of listener number `i`, a snapshot for it, and the end of the
call that edit number `k` awaits. -/
inductive Event where
  | resetProfile
  | updateProfile (user : User)
  | updateProfilePicture (user : User)
  | changed (i : Nat)
  | snapshot (i : Nat) (snap : Option Doc)
  | edited (k : Nat) (returns : Bool)

def step (bloc : ProfileBloc) : Event → Option ProfileBloc
  | .resetProfile => some { bloc with state := .loading }
  | .updateProfile user => some (bloc.updateProfile user)
  | .updateProfilePicture user => some (bloc.updateProfilePicture user)
  | .changed i =>
    match bloc.listeners[i]? with
    | some listener =>
      if listener.isOpen then some { bloc with due := bloc.due ++ [i] } else none
    | none => none
  | .snapshot i snap =>
    match bloc.listeners[i]? with
    | some listener =>
      if listener.isOpen ∧ i ∈ bloc.due then some (bloc.onSnapshot i listener snap) else none
    | none => none
  | .edited k returns =>
    match bloc.edits[k]? with
    | some user =>
      let ended := { bloc with edits := bloc.edits.eraseIdx k }
      match returns, user.id with
      | true, some userId => some (ended.loadProfile userId)
      -- the call has thrown, or `event.user.id!` throws
      | _, _ => some ended
    | none => none

/-! ## One account -/

/-- The users that a page takes from the state. -/
def isMine (bloc : ProfileBloc) (user : User) : Prop :=
  user.id = some bloc.userId ∨ user.id = some ""

/-- The bloc is about the user it was created for, or about nobody. -/
structure OneUser (bloc : ProfileBloc) : Prop where
  listeners : ∀ x ∈ bloc.listeners, x.userId = bloc.userId
  state : ∀ user, bloc.state = .loaded user → user.id = some bloc.userId
  edits : ∀ user ∈ bloc.edits, bloc.isMine user

variable {bloc bloc' : ProfileBloc}

/-- What a page reads is the user of the bloc, or the empty user. -/
theorem OneUser.isMine_user (h : OneUser bloc) : bloc.isMine bloc.state.user := by
  cases hstate : bloc.state with
  | loading => exact .inr rfl
  | loaded user => exact .inl (h.state user hstate)

theorem OneUser.loadProfile (h : OneUser bloc) {userId : String}
    (hid : userId = bloc.userId ∨ userId = "") : OneUser (bloc.loadProfile userId) := by
  unfold ProfileBloc.loadProfile
  split
  · exact h
  · next hne =>
    refine ⟨?_, h.state, h.edits⟩
    intro x hx
    rcases List.mem_append.mp hx with hx | hx
    · exact h.listeners x hx
    · rw [List.mem_singleton.mp hx]
      exact hid.resolve_right hne

theorem oneUser_create (userId : String) : OneUser (create userId) := by
  have hnew : OneUser { userId := userId } := ⟨by simp, by simp, by simp⟩
  exact hnew.loadProfile (.inl rfl)

theorem loadProfile_userId (userId : String) (bloc : ProfileBloc) :
    (bloc.loadProfile userId).userId = bloc.userId := by
  unfold loadProfile
  split <;> rfl

theorem OneUser.onSnapshot (h : OneUser bloc) {i : Nat} {listener : ProfileListener}
    (hi : bloc.listeners[i]? = some listener) (snap : Option Doc) :
    OneUser (bloc.onSnapshot i listener snap) := by
  have hlistener := h.listeners listener (List.mem_of_getElem? hi)
  unfold ProfileBloc.onSnapshot
  cases hread : User.fromSnapshot listener.userId snap with
  | ok user =>
    refine ⟨h.listeners, ?_, h.edits⟩
    intro user' huser
    cases huser
    rw [(User.fromSnapshot_ok hread).1, hlistener]
  | error e =>
    refine ⟨?_, h.state, h.edits⟩
    intro x hx
    rcases List.mem_or_eq_of_mem_set hx with hx | rfl
    · exact h.listeners x hx
    · exact hlistener

/-- What happens keeps the bloc with its user, if edits are of a user that
a page has taken from the state. -/
theorem OneUser.step (h : OneUser bloc) {e : Event}
    (hedit : ∀ user, e = .updateProfile user ∨ e = .updateProfilePicture user →
      bloc.isMine user)
    (hstep : ProfileBloc.step bloc e = some bloc') :
    OneUser bloc' ∧ bloc'.userId = bloc.userId := by
  have hedits : ∀ user, bloc.isMine user → ∀ user' ∈ bloc.edits ++ [user],
      bloc.isMine user' := by
    intro user hmine user' huser
    rcases List.mem_append.mp huser with huser | huser
    · exact h.edits user' huser
    · rw [List.mem_singleton.mp huser]
      exact hmine
  cases e with
  | resetProfile =>
    cases hstep
    exact ⟨⟨h.listeners, by simp, h.edits⟩, rfl⟩
  | updateProfile user =>
    cases hstep
    exact ⟨⟨h.listeners, h.state, hedits user (hedit user (.inl rfl))⟩, rfl⟩
  | updateProfilePicture user =>
    cases hstep
    refine ⟨⟨h.listeners, ?_, hedits user (hedit user (.inr rfl))⟩, rfl⟩
    intro user' huser
    cases huser
  | changed i =>
    simp only [ProfileBloc.step] at hstep
    split at hstep
    · split at hstep
      · cases hstep
        exact ⟨⟨h.listeners, h.state, h.edits⟩, rfl⟩
      · cases hstep
    · cases hstep
  | snapshot i snap =>
    simp only [ProfileBloc.step] at hstep
    split at hstep
    · next listener hi =>
      split at hstep
      · cases hstep
        refine ⟨h.onSnapshot hi snap, ?_⟩
        unfold ProfileBloc.onSnapshot
        split <;> rfl
      · cases hstep
    · cases hstep
  | edited k returns =>
    simp only [ProfileBloc.step] at hstep
    split at hstep
    · next user hk =>
      have hended : OneUser { bloc with edits := bloc.edits.eraseIdx k } :=
        ⟨h.listeners, h.state, fun u hu => h.edits u (List.mem_of_mem_eraseIdx hu)⟩
      split at hstep
      · next userId hid =>
        cases hstep
        have hmine : bloc.isMine user := h.edits user (List.mem_of_getElem? hk)
        simp only [isMine, hid, Option.some.injEq] at hmine
        exact ⟨hended.loadProfile hmine, loadProfile_userId _ _⟩
      · cases hstep
        exact ⟨hended, rfl⟩
    · cases hstep

end ProfileBloc

end GottaGo
