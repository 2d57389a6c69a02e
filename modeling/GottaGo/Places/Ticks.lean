/-
GottaGo.Places.Ticks — the ticks of the place cards and the selected places.

A card of a list (`place_card.dart`) is kept alive and keeps its own
`isSelected`. A tap in editing mode toggles it, and adds the `SelectPlace` or
`UnselectPlace` of the `Place` object that the card holds then. Whenever the
stream of places emits, each card is given a new object for its place.
`EditPlacesBloc` keeps the selected objects, clears them when editing starts,
and looks for the very object when one is taken out.

So the ticks and the selection part where editing starts with a card ticked,
and where a ticked card is given a new object before it is tapped again.
`ticks_agree_iff` says that they part nowhere else.
-/
import GottaGo.Async.Events
import GottaGo.Bloc.Selection

namespace GottaGo

open GottaGo.Async GottaGo.Async.Events

/-- A `Place` object: every emission of the stream makes one for each place. -/
structure PlaceRef where
  placeId : String
  emission : Nat
  deriving DecidableEq, Repr

/-- The cards of a list, `EditPlacesBloc`, and the events added to it that it
has not handled yet. -/
structure CardsPage where
  /-- The places of the cards whose `isSelected` is true. -/
  ticked : Finset String := ∅
  /-- The emissions of the stream so far. -/
  emission : Nat := 0
  /-- The state that the cards were last built with was `EditPlacesStarted`. -/
  built : Bool := false
  selectedPlaces : List PlaceRef := []
  state : EditPlacesState := .initial
  pending : List (SelectionEvent PlaceRef) := []

inductive CardsEvent where
  | startEditing
  | cancelEditing
  | tap (placeId : String)
  | reemit
  | rebuild
  | handle
  deriving DecidableEq, Repr

namespace CardsPage

/-- `widget.place` of the card of a place. -/
def place (page : CardsPage) (placeId : String) : PlaceRef :=
  { placeId, emission := page.emission }

def add (page : CardsPage) (event : SelectionEvent PlaceRef) : CardsPage :=
  { page with pending := page.pending ++ [event] }

/-- `onTap` of a card, and of its check box. One that was not built in editing
mode opens its place instead. -/
def onTap (page : CardsPage) (placeId : String) : CardsPage :=
  if page.built then
    if placeId ∈ page.ticked then
      { page with ticked := page.ticked.erase placeId }.add (.unselectPlace (page.place placeId))
    else
      { page with ticked := insert placeId page.ticked }.add (.selectPlace (page.place placeId))
  else page

variable (contents : PlaceRef → Place)

/-- The bloc handles the first event that was added, if there is one. -/
def handle (page : CardsPage) : CardsPage :=
  match page.pending with
  | [] => page
  | event :: pending =>
    { page with
      selectedPlaces := EditPlacesBloc.select page.selectedPlaces event
      state := EditPlacesBloc.onSelection contents page.state event
      pending }

def next (page : CardsPage) : CardsEvent → CardsPage
  | .startEditing => page.add .startEditing
  | .cancelEditing => page.add .cancelEditing
  | .tap placeId => page.onTap placeId
  | .reemit => { page with emission := page.emission + 1 }
  | .rebuild => { page with built := page.state.isStarted }
  | .handle => page.handle contents

def step (page : CardsPage) (event : CardsEvent) : Option CardsPage :=
  some (page.next contents event)

/-- The selection once the events added so far are handled. -/
def settled (page : CardsPage) : List PlaceRef :=
  page.pending.foldl EditPlacesBloc.select page.selectedPlaces

/-- The state once they are. -/
def settledState (page : CardsPage) : EditPlacesState :=
  page.pending.foldl (EditPlacesBloc.onSelection contents) page.state

/-- Editing starts while no card is ticked, and a ticked card is tapped while
the selection will hold its object. -/
def keeps (page : CardsPage) : CardsEvent → Bool
  | .startEditing => page.ticked = ∅
  | .tap placeId =>
    page.built → placeId ∈ page.ticked → page.place placeId ∈ page.settled
  | _ => true

end CardsPage

/-- Every ticked card has its place among the selected ones, once, and no
other place is there. -/
structure TicksAgree (ticked : Finset String) (places : List PlaceRef) : Prop where
  nodup : (places.map PlaceRef.placeId).Nodup
  ids : (places.map PlaceRef.placeId).toFinset = ticked

namespace TicksAgree

variable {ticked : Finset String} {places : List PlaceRef} {r : PlaceRef}

theorem mem_ids (h : TicksAgree ticked places) {placeId : String} :
    placeId ∈ places.map PlaceRef.placeId ↔ placeId ∈ ticked := by
  rw [← h.ids, List.mem_toFinset]

theorem nil_iff : TicksAgree ticked [] ↔ ticked = ∅ :=
  ⟨fun h => h.ids.symm, fun h => ⟨List.nodup_nil, h.symm⟩⟩

/-- A card is ticked, and its place is added. -/
theorem select (h : TicksAgree ticked places) (hr : r.placeId ∉ ticked) :
    TicksAgree (insert r.placeId ticked) (places ++ [r]) where
  nodup := by
    have hnew : r.placeId ∉ places.map PlaceRef.placeId := fun hmem => hr (h.mem_ids.mp hmem)
    rw [List.map_append, List.map_singleton, ← List.concat_eq_append]
    exact h.nodup.concat hnew
  ids := by
    ext placeId
    simp [← h.ids]

/-- In a list whose ids are distinct, an object goes with its id. -/
theorem map_erase (hnodup : (places.map PlaceRef.placeId).Nodup) (hr : r ∈ places) :
    (places.erase r).map PlaceRef.placeId = (places.map PlaceRef.placeId).erase r.placeId := by
  induction places with
  | nil => rfl
  | cons p places ih =>
    rw [List.map_cons, List.nodup_cons] at hnodup
    by_cases hp : p = r
    · subst hp
      simp
    · have hmem : r ∈ places := (List.mem_cons.mp hr).resolve_left fun e => hp e.symm
      have hid : p.placeId ≠ r.placeId := by
        intro he
        rw [he] at hnodup
        exact hnodup.1 (List.mem_map_of_mem hmem)
      rw [List.erase_cons_tail (by simpa using hp), List.map_cons, List.map_cons,
        List.erase_cons_tail (by simpa using hid), ih hnodup.2 hmem]

/-- A card is unticked, and its place is taken out. -/
theorem unselect (h : TicksAgree ticked places) (hr : r ∈ places) :
    TicksAgree (ticked.erase r.placeId) (places.erase r) where
  nodup := by
    rw [map_erase h.nodup hr]
    exact h.nodup.erase _
  ids := by
    ext placeId
    rw [map_erase h.nodup hr, List.mem_toFinset, h.nodup.mem_erase_iff, h.mem_ids,
      Finset.mem_erase]

/-- A card is unticked, and an object of its place stays. -/
theorem not_unselect (h : TicksAgree ticked places) (hr : r ∉ places)
    (hid : r.placeId ∈ ticked) : ¬ TicksAgree (ticked.erase r.placeId) (places.erase r) := by
  intro hafter
  rw [List.erase_of_not_mem hr] at hafter
  exact Finset.notMem_erase _ _ (hafter.mem_ids.mp (h.mem_ids.mpr hid))

end TicksAgree

/-! ## One event -/

namespace CardsPage

variable (contents : PlaceRef → Place) {page : CardsPage}

@[simp] theorem settled_add (page : CardsPage) (event : SelectionEvent PlaceRef) :
    (page.add event).settled = EditPlacesBloc.select page.settled event :=
  List.foldl_append ..

@[simp] theorem settledState_add (page : CardsPage) (event : SelectionEvent PlaceRef) :
    (page.add event).settledState contents =
      EditPlacesBloc.onSelection contents (page.settledState contents) event :=
  List.foldl_append ..

/-- What is handled was to be handled. -/
theorem handle_settled (page : CardsPage) :
    (page.handle contents).settled = page.settled ∧
      (page.handle contents).settledState contents = page.settledState contents ∧
      (page.handle contents).ticked = page.ticked := by
  rcases hpending : page.pending with _ | ⟨event, pending⟩ <;>
    simp [handle, settled, settledState, hpending]

/-- In editing mode, once all is handled, the ticks and the selection will
agree. -/
def Shown (page : CardsPage) : Prop :=
  (page.settledState contents).isStarted = true → TicksAgree page.ticked page.settled

/-- An event is added that leads to editing mode, whatever the ticks become. -/
theorem add_agree (page : CardsPage) (ticked : Finset String)
    {event : SelectionEvent PlaceRef} (hevent : event ≠ .cancelEditing) {kept : Prop}
    (hkept : TicksAgree ticked (EditPlacesBloc.select page.settled event) ↔ kept) :
    let page' := { page with ticked }.add event
    ((page'.settledState contents).isStarted = false → TicksAgree page'.ticked page'.settled) ∧
      (page'.Shown contents ↔ kept) := by
  intro page'
  have hstarted : (page'.settledState contents).isStarted = true := by simp [page', hevent]
  refine ⟨fun hnot => absurd (hstarted.symm.trans hnot) Bool.noConfusion, ?_⟩
  rw [Shown, settled_add]
  exact ⟨fun h => hkept.mp (h hstarted), fun h _ => hkept.mpr h⟩

/-- Where they agree after an event that keeps the promise, nothing is left
to show. -/
theorem kept_agree {page' : CardsPage} {kept : Prop}
    (h : TicksAgree page'.ticked page'.settled) (hkept : kept) :
    ((page'.settledState contents).isStarted = false → TicksAgree page'.ticked page'.settled) ∧
      (page'.Shown contents ↔ kept) :=
  ⟨fun _ => h, iff_of_true (fun _ => h) hkept⟩

/-- Where the ticks and the selection agree, an event that does not end the
editing mode keeps them so just when it keeps the promise, and the one that
ends it always does. -/
theorem next_agree (h : TicksAgree page.ticked page.settled) (event : CardsEvent) :
    (((page.next contents event).settledState contents).isStarted = false →
        TicksAgree (page.next contents event).ticked (page.next contents event).settled) ∧
      ((page.next contents event).Shown contents ↔ page.keeps event = true) := by
  cases event with
  | startEditing =>
    refine add_agree contents page page.ticked (by simp) ?_
    rw [keeps, decide_eq_true_eq]
    exact TicksAgree.nil_iff
  | cancelEditing =>
    refine kept_agree contents ?_ rfl
    rw [next, settled_add]
    exact h
  | tap placeId =>
    cases hbuilt : page.built with
    | false =>
      have hstays : page.next contents (.tap placeId) = page := by simp [next, onTap, hbuilt]
      rw [hstays]
      exact kept_agree contents h (by simp [keeps, hbuilt])
    | true =>
      by_cases hticked : placeId ∈ page.ticked
      · have hnext : page.next contents (.tap placeId) =
            { page with ticked := page.ticked.erase placeId }.add
              (.unselectPlace (page.place placeId)) := by
          simp [next, onTap, hbuilt, hticked]
        rw [hnext]
        refine add_agree contents page _ (by simp) ?_
        by_cases hplace : page.place placeId ∈ page.settled
        · exact iff_of_true (h.unselect hplace) (by simp [keeps, hplace])
        · exact iff_of_false (h.not_unselect hplace hticked)
            (by simp [keeps, hbuilt, hticked, hplace])
      · have hnext : page.next contents (.tap placeId) =
            { page with ticked := insert placeId page.ticked }.add
              (.selectPlace (page.place placeId)) := by
          simp [next, onTap, hbuilt, hticked]
        rw [hnext]
        refine add_agree contents page _ (by simp) ?_
        exact iff_of_true (h.select (r := page.place placeId) hticked) (by simp [keeps, hticked])
  | reemit => exact kept_agree contents h rfl
  | rebuild => exact kept_agree contents h rfl
  | handle =>
    obtain ⟨hsettled, hstate, hticks⟩ := handle_settled contents page
    refine kept_agree contents ?_ rfl
    rw [next, hsettled, hticks]
    exact h

/-! ## Runs -/

/-- The bloc goes on handling what was added, until nothing is left. -/
theorem handle_all (page : CardsPage) :
    ∃ page', replay (step contents) free page (List.replicate page.pending.length .handle) =
        some page' ∧ page'.pending = [] ∧ page'.ticked = page.ticked ∧
      page'.selectedPlaces = page.settled ∧ page'.state = page.settledState contents := by
  rcases page with ⟨ticked, emission, built, selectedPlaces, state, pending⟩
  induction pending generalizing selectedPlaces state with
  | nil => exact ⟨_, rfl, rfl, rfl, rfl, rfl⟩
  | cons event pending ih =>
    exact ih (EditPlacesBloc.select selectedPlaces event)
      (EditPlacesBloc.onSelection contents state event)

/-- Whatever is handled, what will be selected and shown stays. -/
theorem settled_handles {n : Nat} {page' : CardsPage}
    (h : replay (step contents) free page (List.replicate n .handle) = some page') :
    page'.ticked = page.ticked ∧ page'.settled = page.settled ∧
      page'.settledState contents = page.settledState contents := by
  induction n generalizing page with
  | zero =>
    cases h
    exact ⟨rfl, rfl, rfl⟩
  | succ n ih =>
    obtain ⟨-, _, hnext, hrest⟩ := replay_cons_eq_some.mp h
    cases hnext
    obtain ⟨hsettled, hstate, hticked⟩ := handle_settled contents page
    obtain ⟨hticked', hsettled', hstate'⟩ := ih hrest
    exact ⟨hticked'.trans hticked, hsettled'.trans hsettled, hstate'.trans hstate⟩

/-- What is shown of the pages of a run once all is handled is what is shown
of them. -/
theorem shown_iff (events : List CardsEvent) :
    (∀ n page, replay (step contents) free {} (events ++ List.replicate n .handle) =
          some page →
        page.pending = [] → page.state.isStarted = true →
          TicksAgree page.ticked page.selectedPlaces) ↔
      ∀ page, replay (step contents) free {} events = some page → page.Shown contents := by
  constructor
  · intro h page hpage hstarted
    obtain ⟨page', hrun, hpending, hticked, hselected, hstate⟩ := handle_all contents page
    rw [← hticked, ← hselected]
    refine h page.pending.length page' ?_ hpending (by rwa [hstate])
    rw [replay_append, hpage]
    exact hrun
  · intro h n page' hrun hpending hstarted
    rw [replay_append] at hrun
    obtain ⟨page, hpage, hhandled⟩ := Option.bind_eq_some_iff.mp hrun
    obtain ⟨hticked, hsettled, hstate⟩ := settled_handles contents hhandled
    have hall : page'.settled = page'.selectedPlaces := by rw [settled, hpending]; rfl
    have hall' : page'.settledState contents = page'.state := by
      rw [settledState, hpending]
      rfl
    rw [← hall, hticked, hsettled]
    apply h page hpage
    rw [← hstate, hall']
    exact hstarted

end CardsPage

/-- In every run, the ticked cards are the selected places, each once,
whenever the bloc is in editing mode and has handled what was added, now or
after any part of the run: just when editing starts only while no card is
ticked, and a ticked card is tapped only while its object is, or will be,
selected. -/
theorem ticks_agree_iff (contents : PlaceRef → Place) (events : List CardsEvent) :
    (∀ k n page, replay (CardsPage.step contents) free {}
          (events.take k ++ List.replicate n .handle) = some page →
        page.pending = [] → page.state.isStarted = true →
          TicksAgree page.ticked page.selectedPlaces) ↔
      (replay (CardsPage.step contents) CardsPage.keeps {} events).isSome := by
  have hrun : (replay (CardsPage.step contents) free {} events).isSome :=
    replay_free_isSome (fun _ _ => rfl) _ events
  have hfirst : TicksAgree ({} : CardsPage).ticked ({} : CardsPage).settled :=
    TicksAgree.nil_iff.mpr rfl
  have hshown (k : Nat) := CardsPage.shown_iff contents (events.take k)
  refine (forall_congr' hshown).trans ?_
  refine replay_promise_iff (P := CardsPage.Shown contents)
    (J := fun page => (page.settledState contents).isStarted = false →
      TicksAgree page.ticked page.settled)
    (fun _ => hfirst) (fun _ => hfirst) ?_ hrun
  intro page event page' hout hin hstep
  cases hstep
  have hagree : TicksAgree page.ticked page.settled := by
    cases hstarted : (page.settledState contents).isStarted with
    | true => exact hin hstarted
    | false => exact hout hstarted
  exact CardsPage.next_agree contents hagree event

/-- A card is ticked, editing is cancelled and started again: the card is
still ticked, and nothing is selected. And a card is ticked, the stream
emits, and the card is tapped again: it is not ticked, and its place is
selected. -/
theorem ticks_part :
    let contents : PlaceRef → Place := fun r => { placeId := some r.placeId }
    let started : List CardsEvent := [.startEditing, .handle, .rebuild, .tap "p1", .handle]
    (∃ page, replay (CardsPage.step contents) free {}
          (started ++ [.cancelEditing, .handle, .rebuild, .startEditing, .handle]) = some page ∧
        page.pending = [] ∧ page.state.isStarted = true ∧
        ¬ TicksAgree page.ticked page.selectedPlaces) ∧
      ∃ page, replay (CardsPage.step contents) free {}
          (started ++ [.reemit, .tap "p1", .handle]) = some page ∧
        page.pending = [] ∧ page.state.isStarted = true ∧
        ¬ TicksAgree page.ticked page.selectedPlaces := by
  refine ⟨⟨_, rfl, rfl, rfl, fun h => ?_⟩, ⟨_, rfl, rfl, rfl, fun h => ?_⟩⟩
  · exact absurd h.ids (by decide)
  · exact absurd h.ids (by decide)

end GottaGo
