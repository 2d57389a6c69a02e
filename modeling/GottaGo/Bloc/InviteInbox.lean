/-
GottaGo.Bloc.InviteInbox — `InviteInboxBloc` and the streams of its invites
(`invite_inbox_bloc.dart`, `invite_repository.dart`).

`invites` is one list that every handler works on. A state that is loaded
carries that very list, or a list that is always empty, so what the state
says changes with `invites` and without an `emit`. `emit` drops a state that
equals the current one: after the first invite of a load it drops all the
others. `published` is what the listeners of the bloc have been told last,
as it was then.

The constructor listens to `getInvites` as well. Its callback makes a
`LoadInvites` and does not add it, so nothing of it is modelled.
-/
import GottaGo.Bloc.Reporting
import Mathlib.Data.List.AList

namespace GottaGo

open GottaGo.Firestore

deriving instance DecidableEq for InviteInboxState

/-! ## The bloc -/

/-- The list that a state carries. -/
inductive Carried where
  | nothing
  /-- The list of the bloc. -/
  | invites
  /-- `const []`. -/
  | empty
  deriving DecidableEq

/-- `counting` is the number of handlers of `LoadInvites` that wait for
`getInviteCount`, `delayed` that of the handlers of answers that wait for
two seconds to be over. -/
structure InviteInboxBloc where
  invites : List Invite := []
  status : InviteInboxStatus := .loading
  carried : Carried := .nothing
  published : Option InviteInboxState := none
  counting : Nat := 0
  delayed : Nat := 0

namespace InviteInboxBloc

/-- The state, as it is now. -/
def state (bloc : InviteInboxBloc) : InviteInboxState where
  status := bloc.status
  invites :=
    match bloc.carried with
    | .nothing => none
    | .invites => some bloc.invites
    | .empty => some []

/-- `emit`. The first state is always published. -/
def emit (status : InviteInboxStatus) (carried : Carried) (bloc : InviteInboxBloc) :
    InviteInboxBloc :=
  let next := { bloc with status := status, carried := carried }
  if bloc.published.isSome ∧ next.state = bloc.state then bloc
  else { next with published := some next.state }

/-- `LoadInvites`, up to the answer of `getInviteCount`. -/
def loadInvites (bloc : InviteInboxBloc) : InviteInboxBloc :=
  let cleared := { bloc with invites := [] }
  let loading :=
    if cleared.state ≠ { status := .loading } then cleared.emit .loading .nothing else cleared
  { loading with counting := loading.counting + 1 }

/-- `LoadInvites`, from an answer that is 0. -/
def noInvites (bloc : InviteInboxBloc) : InviteInboxBloc := bloc.emit .loaded .empty

/-- `onData` of `emit.forEach`. -/
def onInvite (invite : Invite) (bloc : InviteInboxBloc) : InviteInboxBloc :=
  { bloc with invites := bloc.invites ++ [invite] }.emit .loaded .invites

/-- `AcceptInvite`, `DeclineInvite` and `DeleteInvite`, up to the delay. The
repository call that they start writes like any other client. -/
def answerInvite (answer : InviteAnswer) (bloc : InviteInboxBloc) : InviteInboxBloc :=
  let answered := (bloc.emit .loading .nothing).emit answer.status .nothing
  { answered with delayed := answered.delayed + 1 }

/-! ## What is emitted -/

variable {bloc : InviteInboxBloc} {status : InviteInboxStatus} {carried : Carried}

/-- `emit` drops the state that there is, or publishes. -/
theorem emit_cases (status : InviteInboxStatus) (carried : Carried) (bloc : InviteInboxBloc) :
    let next := { bloc with status := status, carried := carried }
    (bloc.emit status carried = bloc ∧ next.state = bloc.state) ∨
      bloc.emit status carried = { next with published := some next.state } := by
  intro next
  by_cases h : bloc.published.isSome ∧ next.state = bloc.state
  · exact .inl ⟨if_pos h, h.2⟩
  · exact .inr (if_neg h)

/-- After `emit` the state is the one emitted, published or not. -/
theorem state_emit : (bloc.emit status carried).state =
    ({ bloc with status := status, carried := carried } : InviteInboxBloc).state := by
  rcases emit_cases status carried bloc with ⟨hsame, hstate⟩ | hnew
  · rw [hsame, hstate]
  · rw [hnew]
    rfl

@[simp] theorem status_emit : (bloc.emit status carried).status = status :=
  congrArg InviteInboxState.status state_emit

@[simp] theorem status_loadInvites : bloc.loadInvites.status = .loading := by
  simp only [loadInvites]
  split
  · exact status_emit
  · next h => exact congrArg InviteInboxState.status (not_ne_iff.mp h)

@[simp] theorem status_answerInvite (answer : InviteAnswer) :
    (bloc.answerInvite answer).status = answer.status := status_emit

/-- What is known of a loaded state: the list of the bloc is carried only
when it is not empty, and the empty one has been published. -/
structure Tracked (bloc : InviteInboxBloc) : Prop where
  carries : bloc.status = .loaded → bloc.carried ≠ .nothing
  nonempty : bloc.status = .loaded → bloc.carried = .invites → bloc.invites ≠ []
  published : bloc.status = .loaded → bloc.carried = .empty →
    bloc.published = some { status := .loaded, invites := some [] }

theorem tracked_of_ne (h : bloc.status ≠ .loaded) : bloc.Tracked :=
  ⟨fun hloaded => absurd hloaded h, fun hloaded => absurd hloaded h,
    fun hloaded => absurd hloaded h⟩

/-- A loaded state that shows nothing carries `const []`, and has been
published. -/
theorem Tracked.of_nil (h : bloc.Tracked) (hloaded : bloc.status = .loaded)
    (hnil : bloc.carried = .invites → bloc.invites = []) :
    bloc.state = { status := .loaded, invites := some [] } ∧
      bloc.published = some bloc.state := by
  have hcarried : bloc.carried = .empty := by
    cases hc : bloc.carried with
    | nothing => exact absurd hc (h.carries hloaded)
    | invites => exact absurd (hnil hc) (h.nonempty hloaded hc)
    | empty => rfl
  have hstate : bloc.state = { status := .loaded, invites := some [] } := by
    simp [state, hloaded, hcarried]
  exact ⟨hstate, by rw [hstate, h.published hloaded hcarried]⟩

/-- An answer of 0 shows no invite. -/
theorem Tracked.noInvites (h : bloc.Tracked) :
    bloc.noInvites.Tracked ∧ bloc.noInvites.invites = bloc.invites ∧
      bloc.noInvites.state = { status := .loaded, invites := some [] } ∧
      bloc.noInvites.published = some bloc.noInvites.state := by
  have hstate : bloc.noInvites.state = { status := .loaded, invites := some [] } := state_emit
  rcases emit_cases .loaded .empty bloc with ⟨hsame, -⟩ | hnew
  · have hdropped : bloc.noInvites = bloc := hsame
    rw [hdropped] at hstate ⊢
    have hloaded : bloc.status = .loaded := congrArg InviteInboxState.status hstate
    have hnil : bloc.carried = .invites → bloc.invites = [] := by
      intro hcarried
      simpa [state, hcarried, hloaded] using hstate
    exact ⟨h, rfl, hstate, (h.of_nil hloaded hnil).2⟩
  · have hpublished : bloc.noInvites = _ := hnew
    rw [hpublished]
    exact ⟨⟨by simp, by simp, fun _ _ => rfl⟩, rfl, rfl, rfl⟩

/-- The first invite of an empty list is published. -/
theorem Tracked.onInvite (h : bloc.Tracked) (hnil : bloc.invites = []) (invite : Invite) :
    (bloc.onInvite invite).Tracked ∧ (bloc.onInvite invite).invites = [invite] ∧
      (bloc.onInvite invite).state = { status := .loaded, invites := some [invite] } ∧
      (bloc.onInvite invite).published = some (bloc.onInvite invite).state := by
  have hadded : ({ bloc with invites := bloc.invites ++ [invite] } : InviteInboxBloc) =
      { bloc with invites := [invite] } := by
    rw [hnil]
    rfl
  rw [InviteInboxBloc.onInvite, hadded]
  rcases emit_cases .loaded .invites { bloc with invites := [invite] } with ⟨-, hsame⟩ | hnew
  · -- a loaded state does not carry this list yet
    have hloaded : bloc.status = .loaded := (congrArg InviteInboxState.status hsame).symm
    have hcarried : bloc.carried = .invites := by
      cases hc : bloc.carried <;> simp [state, hc] at hsame ⊢
    exact absurd hnil (h.nonempty hloaded hcarried)
  · rw [hnew]
    exact ⟨⟨by simp, by simp, by simp⟩, rfl, rfl, rfl⟩

end InviteInboxBloc

/-! ## The streams (`invite_repository.dart`) -/

/-- The documents of the user's subcollection, by their ids. -/
abbrev InviteDocs := AList fun _ : String => Doc

def InviteRepository.getInviteCount (docs : InviteDocs) : Nat := docs.keys.length

/-- A listener on one document, with the snapshots on their way to it, the
oldest first. -/
structure DocumentListener where
  id : String
  due : List (Option Doc)

/-- The documents change from `docs` to `docs'`. -/
def DocumentListener.owe (docs docs' : InviteDocs) (x : DocumentListener) : DocumentListener :=
  { x with
    due :=
      if docs'.lookup x.id = docs.lookup x.id then x.due
      else x.due ++ [docs'.lookup x.id] }

/-- A listener of `getInvites`: the snapshots of the subcollection that are on
their way, each by the ids of its documents, and the listeners on the
documents of the last one that has come. -/
structure InvitesListener where
  due : List (List String)
  below : List DocumentListener := []

namespace InvitesListener

/-- A listener is due the snapshot of the moment it is opened. -/
def opened (docs : InviteDocs) : InvitesListener := { due := [docs.keys] }

/-- Something is on its way to the listener or to one below it. -/
def pending (l : InvitesListener) : Bool :=
  !l.due.isEmpty || l.below.any fun x => !x.due.isEmpty

/-- The subcollection changes. -/
def owe (docs docs' : InviteDocs) (l : InvitesListener) : InvitesListener where
  due := l.due ++ [docs'.keys]
  below := l.below.map (·.owe docs docs')

/-- `switchMap`: the listeners below are closed, and those of the snapshot
opened. -/
def switch (docs : InviteDocs) (ids : List String) (rest : List (List String)) :
    InvitesListener where
  due := rest
  below := ids.map fun id => { id := id, due := [docs.lookup id] }

/-- Listener `k` below has `rest` on its way. -/
def hand (k : Nat) (x : DocumentListener) (rest : List (Option Doc)) (l : InvitesListener) :
    InvitesListener :=
  { l with below := l.below.set k { x with due := rest } }

end InvitesListener

end GottaGo
