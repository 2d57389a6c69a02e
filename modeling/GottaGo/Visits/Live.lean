/-
GottaGo.Visits.Live — a batch edit loops over the live selection.

The handlers of the three batches go through `selectedPlaces` itself, with an
await for each place, and the bloc handles other events meanwhile: the edit
button stays enabled while the state is `EditPlacesLoading`. A batch
processes what was confirmed just when those events leave the selection
alone.

Changing a list while a loop goes through it makes the loop throw
`ConcurrentModificationError`. What is shown here is shown of an iterator
that notices every change, and of one that compares lengths, as the Dart
VM's does.
-/
import GottaGo.Bloc.Selection
import GottaGo.Visits.Moves

namespace GottaGo

open GottaGo.Async

/-- The events handled during a batch do not disturb its loop. An iterator
that counts changes is disturbed by each. One that compares lengths is
disturbed where the list has another length when it moves on, or the places
it comes upon are not those that were selected. -/
def Undisturbed {α : Type} [DecidableEq α] (place : α → Place) (selectedPlaces : List α)
    (gaps : Nat → List (SelectionEvent α)) : LiveList.Check → Prop
  | .changes => ∀ k < selectedPlaces.length, ∀ event ∈ gaps k, event.LeavesAlone selectedPlaces
  | .length =>
    let selectedBefore (k : Nat) : List α :=
      (LiveList.beforeMove EditPlacesBloc.select gaps { elems := selectedPlaces } k).elems
    (∀ k ≤ selectedPlaces.length, (selectedBefore k).length = selectedPlaces.length) ∧
      (((List.range selectedPlaces.length).filterMap fun k => (selectedBefore k)[k]?).map
        place).Perm (selectedPlaces.map place)

/-- A batch whose selection nothing changes makes the calls of the handler
that is given the selection, in order. -/
theorem runBatch_of_leavesAlone {α : Type} [DecidableEq α] (place : α → Place)
    (placeList : PlaceList) (batch : Batch) {selectedPlaces : List α}
    {gaps : Nat → List (SelectionEvent α)}
    (h : ∀ k < selectedPlaces.length, ∀ event ∈ gaps k, event.LeavesAlone selectedPlaces) :
    EditPlacesBloc.runBatch .changes place placeList batch selectedPlaces gaps =
      { visited := (batch.event placeList).calls (selectedPlaces.map place), thrown := false } := by
  obtain ⟨hthrown, hvisited⟩ :=
    LiveList.forEachBeside_changes EditPlacesBloc.select gaps { elems := selectedPlaces }
  simp only [EditPlacesBloc.select_eq_self] at hthrown
  rw [EditPlacesBloc.runBatch, hthrown.mpr h, hvisited (hthrown.mpr h), batch.calls_event,
    List.map_map]
  rfl

/-- A batch over `selectedPlaces` ends without throwing, and has made the
calls for those places, just when the events handled meanwhile do not disturb
its loop. -/
theorem runBatch_exact_iff {α : Type} [DecidableEq α] (check : LiveList.Check)
    (place : α → Place) (placeList : PlaceList) (batch : Batch) (selectedPlaces : List α)
    (gaps : Nat → List (SelectionEvent α)) :
    ((EditPlacesBloc.runBatch check place placeList batch selectedPlaces gaps).thrown = false ∧
        (EditPlacesBloc.runBatch check place placeList batch selectedPlaces gaps).visited.Perm
          ((batch.event placeList).calls (selectedPlaces.map place))) ↔
      Undisturbed place selectedPlaces gaps check := by
  have hperm : ∀ visited : List α,
      (visited.map fun p => batch.call placeList (place p)).Perm
          ((batch.event placeList).calls (selectedPlaces.map place)) ↔
        (visited.map place).Perm (selectedPlaces.map place) := by
    intro visited
    have hmap : (visited.map fun p => batch.call placeList (place p)) =
        (visited.map place).map (batch.call placeList) := by rw [List.map_map]; rfl
    rw [batch.calls_event, hmap]
    exact List.map_perm_map_iff (batch.call_injective placeList)
  cases check with
  | changes =>
    refine ⟨fun h => ?_, fun h => ?_⟩
    · obtain ⟨hthrown, -⟩ :=
        LiveList.forEachBeside_changes EditPlacesBloc.select gaps { elems := selectedPlaces }
      simp only [EditPlacesBloc.select_eq_self] at hthrown
      exact hthrown.mp h.1
    · rw [runBatch_of_leavesAlone place placeList batch h]
      exact ⟨rfl, .refl _⟩
  | length =>
    obtain ⟨hthrown, hvisited⟩ :=
      LiveList.forEachBeside_length EditPlacesBloc.select gaps { elems := selectedPlaces }
    simp only [EditPlacesBloc.runBatch, hperm]
    refine ⟨fun h => ⟨hthrown.mp h.1, ?_⟩, fun h => ⟨hthrown.mpr h.1, ?_⟩⟩
    · rw [hvisited h.1] at h
      exact h.2
    · rw [hvisited (hthrown.mpr h.1)]
      exact h.2

/-- Two places are selected and marked visited, and editing is started again
while the first call is awaited. The selection is gone, whatever the loop's
iterator compares it throws, and the second place is never marked. -/
theorem startEditing_stops_batch :
    let place : String → Place := fun id => { placeId := some id }
    let gaps : Nat → List (SelectionEvent String) := fun k => if k = 0 then [.startEditing] else []
    let marked : LiveList.LoopEnd RepositoryCall :=
      { visited := [.markPlaceVisited (place "colosseum") rome], thrown := true }
    EditPlacesBloc.runBatch .changes place rome .markVisitedPlaces ["colosseum", "pantheon"]
        gaps = marked ∧
      EditPlacesBloc.runBatch .length place rome .markVisitedPlaces ["colosseum", "pantheon"]
        gaps = marked :=
  ⟨rfl, rfl⟩

end GottaGo
