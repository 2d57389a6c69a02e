/-
GottaGo.Bloc.Selection — the selection of `EditPlacesBloc`
(`edit_places_bloc.dart`).

`Place` defines no equality, so `selectedPlaces` holds objects, and its
`remove` takes out the first that is the very object given. `α` stands for
those objects, and `place` says which place is in one.

The handlers of `Bloc/Editing.lean` are given the selection as it is when
they are called. Here is how events change it, and a batch that loops over
the list itself, while other events are handled.
-/
import GottaGo.Async.LiveList
import GottaGo.Bloc.Editing

namespace GottaGo

open GottaGo.Async

/-- The events that change the selection or the mode. -/
inductive SelectionEvent (α : Type) where
  | startEditing
  | cancelEditing
  | selectPlace (place : α)
  | unselectPlace (place : α)
  deriving DecidableEq, Repr

/-- The state is an `EditPlacesStarted`. -/
def EditPlacesState.isStarted : EditPlacesState → Bool
  | .started => true
  | _ => false

namespace EditPlacesBloc

variable {α : Type}

/-- `selectedPlaces` after the handler of the event. -/
def select [DecidableEq α] (selectedPlaces : List α) : SelectionEvent α → List α
  | .startEditing => []
  | .cancelEditing => selectedPlaces
  | .selectPlace place => selectedPlaces ++ [place]
  | .unselectPlace place => selectedPlaces.erase place

/-- The states that the handler emits. -/
def emitted (place : α → Place) : SelectionEvent α → List EditPlacesState
  | .startEditing => [.started]
  | .cancelEditing => [.initial]
  | .selectPlace p => [.placeAdded (place p), .started]
  | .unselectPlace p => [.placeRemoved (place p), .started]

/-- The state after the handler of the event. -/
def onSelection (place : α → Place) (state : EditPlacesState) (event : SelectionEvent α) :
    EditPlacesState :=
  (emitted place event).getLast?.getD state

/-- Every handler but one leaves the bloc in editing mode. -/
@[simp] theorem isStarted_onSelection (place : α → Place) (state : EditPlacesState)
    (event : SelectionEvent α) :
    (onSelection place state event).isStarted = true ↔ event ≠ .cancelEditing := by
  cases event <;> simp [onSelection, emitted, EditPlacesState.isStarted]

end EditPlacesBloc

/-- An event that leaves the selected places as they are. -/
def SelectionEvent.LeavesAlone {α : Type} (selectedPlaces : List α) : SelectionEvent α → Prop
  | .startEditing => selectedPlaces = []
  | .cancelEditing => True
  | .selectPlace _ => False
  | .unselectPlace place => place ∉ selectedPlaces

instance {α : Type} [DecidableEq α] (selectedPlaces : List α) :
    DecidablePred (SelectionEvent.LeavesAlone selectedPlaces)
  | .startEditing => inferInstanceAs (Decidable (selectedPlaces = []))
  | .cancelEditing => inferInstanceAs (Decidable True)
  | .selectPlace _ => inferInstanceAs (Decidable False)
  | .unselectPlace place => inferInstanceAs (Decidable (place ∉ selectedPlaces))

theorem EditPlacesBloc.select_eq_self {α : Type} [DecidableEq α] {selectedPlaces : List α}
    {event : SelectionEvent α} :
    select selectedPlaces event = selectedPlaces ↔ event.LeavesAlone selectedPlaces := by
  cases event with
  | startEditing => exact eq_comm
  | cancelEditing => simp [select, SelectionEvent.LeavesAlone]
  | selectPlace place => simp [select, SelectionEvent.LeavesAlone]
  | unselectPlace place => exact List.erase_eq_self_iff

/-! ## Batches -/

/-- The events whose handlers loop over the selected places. -/
inductive Batch where
  | deletePlaces
  | deleteVisitedPlaces
  | markVisitedPlaces
  deriving DecidableEq, Repr

namespace Batch

/-- The event with its list. -/
def event (placeList : PlaceList) : Batch → EditPlacesEdit
  | .deletePlaces => .deletePlaces placeList
  | .deleteVisitedPlaces => .deleteVisitedPlaces placeList
  | .markVisitedPlaces => .markVisitedPlaces placeList

/-- What the body of the loop calls and awaits. -/
def call (placeList : PlaceList) : Batch → Place → RepositoryCall
  | .deletePlaces, place => .removePlaceFromList place placeList
  | .deleteVisitedPlaces, place => .removePlaceFromVisitedList place placeList
  | .markVisitedPlaces, place => .markPlaceVisited place placeList

/-- The calls of the handler in `Bloc/Editing.lean` are those of the loop. -/
theorem calls_event (placeList : PlaceList) (batch : Batch) (selectedPlaces : List Place) :
    (batch.event placeList).calls selectedPlaces =
      selectedPlaces.map (batch.call placeList) := by
  cases batch <;> rfl

theorem call_injective (placeList : PlaceList) (batch : Batch) :
    Function.Injective (batch.call placeList) := by
  intro p q h
  cases batch <;> injection h

end Batch

/-- The batch over the selection `selectedPlaces`, whose calls all return.
`gaps k` are the events handled while the `k`-th of them is awaited. -/
def EditPlacesBloc.runBatch {α : Type} [DecidableEq α] (check : LiveList.Check)
    (place : α → Place) (placeList : PlaceList) (batch : Batch) (selectedPlaces : List α)
    (gaps : Nat → List (SelectionEvent α)) : LiveList.LoopEnd RepositoryCall :=
  let loop := LiveList.forEachBeside select gaps { elems := selectedPlaces } check
  { visited := loop.visited.map fun p => batch.call placeList (place p)
    thrown := loop.thrown }

end GottaGo
