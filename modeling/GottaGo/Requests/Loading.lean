/-
GottaGo.Requests.Loading — which handlers end in the loading state that
they emitted.

A handler that emits its loading state, awaits calls and then emits another
state ends in loading as soon as a call throws: the exception skips the
rest, and no handler catches it (`Handler.leftIn_iff`). `AddList` and
`RemoveList` emit nothing after their call, so that they end in loading
whatever happens (`Handler.leftIn_of_silent`). `LoadPurchases` throws also
when there is no customer, and it does not emit the loading state when it
is in it already.
-/
import GottaGo.Bloc.Editing
import GottaGo.Bloc.Purchases

namespace GottaGo

open GottaGo.Async Handler

variable {π : Nat → RepositoryCall → Except Firestore.Err Unit}

theorem SavedListsBloc.not_leftIn_iff (event : SavedListsEdit) (s : SavedListsState) :
    ¬ LeftIn (fun s => s.kind = .loading) π (onEdit event) s ↔
      ∃ placeList, event = .updateSavedLists placeList ∧
        (π 0 (.updatePlaceLists placeList)).isOk := by
  cases event with
  | addList placeList =>
    refine iff_of_false (not_not_intro ?_) (by simp)
    exact leftIn_of_silent (by rfl) (silent_call (RepositoryCall.createPlaceList placeList)) s
  | removeList placeList =>
    refine iff_of_false (not_not_intro ?_) (by simp)
    exact leftIn_of_silent (by rfl) (silent_call (RepositoryCall.removePlaceList placeList)) s
  | updateSavedLists placeList =>
    have hcalls : onEdit (.updateSavedLists placeList) = (Handler.emit .loading).bind fun _ =>
        (Handler.calls [.updatePlaceLists placeList]).bind fun _ => Handler.emit .updated := by
      rw [Handler.calls, Prog.bind_assoc]
      rfl
    rw [not_leftIn_iff_answered (by rfl) _ hcalls (fun _ nb => ⟨.updated, by simp, by decide⟩)]
    simp

theorem EditPlacesBloc.not_leftIn_iff (selectedPlaces : List Place) (event : EditPlacesEdit)
    (s : EditPlacesState) :
    ¬ LeftIn (fun s => s = .loading) π (onEdit selectedPlaces event) s ↔
      Answered π (event.calls selectedPlaces) := by
  refine not_leftIn_iff_answered (by rfl) _ (onEdit_eq selectedPlaces event) ?_ s
  intro _ nb
  exact ⟨.initial, by simp, by simp⟩

theorem SettingsBloc.not_leftIn_iff (event : SettingsEdit) (s : SettingsState) :
    ¬ LeftIn (fun s => s = .loading) π (onEdit event) s ↔
      event.Named ∧ Answered π event.calls := by
  by_cases hnamed : event.Named
  · rw [not_leftIn_iff_answered (by rfl) _ (onEdit_eq hnamed) ?_, and_iff_right hnamed]
    intro _ nb
    cases event <;> exact ⟨.loaded, by simp [afterCalls], by simp⟩
  · refine iff_of_false (not_not_intro ?_) fun h => hnamed h.1
    cases event with
    | updateUsername user userName =>
      rw [SettingsEdit.Named] at hnamed
      simp only [LeftIn, emissions, onEdit, onUpdateUsername, update, Prog.bind_eq,
        Prog.eval_bind, eval_emit]
      rcases hname : user.userName with _ | oldName
      · simp [EditHandler.bang]
      rcases hid : user.id with _ | id
      · rcases hr : π 0 (.deregisterUsername oldName) <;>
          simp [EditHandler.bang, hr]
      · exact absurd ⟨by simp [hname], by simp [hid]⟩ hnamed
    | _ => exact absurd trivial hnamed

theorem PurchasesBloc.not_leftIn_iff
    {π : Nat → (c : CustomerCall) → Except PurchasesErr c.Answer} (s : PurchasesState) :
    ¬ LeftIn (fun s => s = .loading) π onLoadPurchases s ↔ s = .loading ∨ Fetched π := by
  unfold LeftIn emissions onLoadPurchases
  simp only [Prog.bind_eq, Prog.eval_bind, Handler.state, Prog.eval_await]
  by_cases hs : s = .loading
  · subst hs
    rcases eval_fetch (π := π) { state := .loading } with ⟨-, _, _, _, _, heq⟩ | ⟨-, heq⟩ <;>
      simp [alone, heq]
  · rcases eval_fetch (π := π) { state := .loading, emitted := [.loading] } with
      ⟨hf, _, _, _, _, heq⟩ | ⟨hf, heq⟩ <;>
      simp [alone, hs, heq, hf, Bloc.emit]

/-- For every event, every state it is handled in and every outcome of every
call: the handler does not end in the loading state that it emitted just
when the event is an update of a list whose call returns; when every call of
an edit of places returns; when every call of a change of settings returns
and a user who changes names has a name and an id; when a load starts in
the loading state or all it fetches comes. -/
theorem loading_cleared_iff (π : Nat → RepositoryCall → Except Firestore.Err Unit)
    (customer : Nat → (c : CustomerCall) → Except PurchasesErr c.Answer)
    (selectedPlaces : List Place) :
    (∀ event s, ¬ LeftIn (fun s => s.kind = .loading) π (SavedListsBloc.onEdit event) s ↔
      ∃ placeList, event = .updateSavedLists placeList ∧
        (π 0 (.updatePlaceLists placeList)).isOk) ∧
    (∀ event s,
      ¬ LeftIn (fun s => s = .loading) π (EditPlacesBloc.onEdit selectedPlaces event) s ↔
        Answered π (event.calls selectedPlaces)) ∧
    (∀ event s, ¬ LeftIn (fun s => s = .loading) π (SettingsBloc.onEdit event) s ↔
      event.Named ∧ Answered π event.calls) ∧
    (∀ s, ¬ LeftIn (fun s => s = .loading) customer PurchasesBloc.onLoadPurchases s ↔
      s = .loading ∨ PurchasesBloc.Fetched customer) :=
  ⟨SavedListsBloc.not_leftIn_iff, EditPlacesBloc.not_leftIn_iff selectedPlaces,
    SettingsBloc.not_leftIn_iff, PurchasesBloc.not_leftIn_iff⟩

/-- A change of name whose write fails leaves the settings loading. -/
theorem settings_left_loading :
    ¬ ∀ event s (π : Nat → RepositoryCall → Except Firestore.Err Unit),
      ¬ LeftIn (fun s => s = .loading) π (SettingsBloc.onEdit event) s := by
  intro h
  have hleft := h (.updateName { id := some "ada" }) .loaded fun _ _ => .error .exception
  rw [SettingsBloc.not_leftIn_iff, SettingsEdit.calls, answered_singleton] at hleft
  exact Bool.false_ne_true hleft.2

end GottaGo
