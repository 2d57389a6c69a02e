/-
GottaGo.Places.Batch — the multi-select buttons of `CategoryPage`
(`lib/view/pages/category_page.dart`).

The page shows the places of `SavedPlacesBloc` but takes the list it acts
on from the state of `SavedListsBloc`, and no state of that bloc has a
list. `batch_throws`: in every run of the two blocs the buttons and the
reload after `EditPlacesSubmitted` throw.
-/
import GottaGo.Bloc.SavedLists
import GottaGo.Places.Loads

namespace GottaGo.CategoryPage

open GottaGo.Async GottaGo.Firestore

/-! ## The two blocs -/

/-- The blocs the page reads, and the handlers of `SavedListsBloc` that
await an answer. -/
structure Blocs where
  lists : SavedListsBloc := {}
  places : SavedPlacesBloc := {}
  running : List SavedListsHandler := []

/-- What happens to the blocs: an event of `SavedListsBloc` is added, the
call one of its handlers awaits ends (only `getMyPlaceListsFuture` returns
something), or something happens to `SavedPlacesBloc`. -/
inductive Happening where
  | lists (handler : SavedListsHandler)
  | ended (k : Nat) (answer : Except Err (Option (List PlaceList)))
  | places (e : SavedPlacesBloc.Event)

def Blocs.begin (firebaseUser : AuthUser) (handler : SavedListsHandler) (blocs : Blocs) :
    Blocs :=
  { blocs with
    lists := blocs.lists.begin firebaseUser handler
    running := blocs.running ++ [handler] }

/-- A handler of `SavedListsBloc`, from the answer it awaits.
`SavedListsUpdated` reaches `SavedPlacesBloc`. -/
def Blocs.finish (firebaseUser : AuthUser) (placeLists : Option (List PlaceList)) :
    SavedListsHandler → Blocs → Option Blocs
  | .loadSavedLists, blocs => some { blocs with lists := blocs.lists.finishLoad placeLists }
  | .updateSavedLists, blocs =>
    (blocs.places.step .savedListsUpdated).map fun places =>
      { blocs with lists := blocs.lists.finishUpdate, places := places }.begin firebaseUser
        .loadSavedLists
  | .addList, blocs => some blocs
  | .removeList, blocs => some blocs

def step (firebaseUser : AuthUser) (blocs : Blocs) : Happening → Option Blocs
  | .lists handler => some (blocs.begin firebaseUser handler)
  | .ended k answer =>
    match blocs.running[k]? with
    | none => none
    | some handler =>
      let rest := { blocs with running := blocs.running.eraseIdx k }
      match answer with
      | .ok placeLists => rest.finish firebaseUser placeLists handler
      | .error _ => some rest
  | .places .savedListsUpdated => none
  | .places e => (blocs.places.step e).map fun places => { blocs with places := places }

/-! ## The page -/

/-- The `currentPlaceList` of the page. -/
def currentPlaceList (blocs : Blocs) : Option PlaceList := blocs.lists.state.placeList

/-- `currentPlaceList!`. -/
def theList (blocs : Blocs) : Except Err PlaceList :=
  match currentPlaceList blocs with
  | some placeList => .ok placeList
  | none => .error .typeError

/-- The events of `EditPlacesBloc` that the buttons add. -/
inductive EditPlacesEvent where
  | deletePlaces (placeList : PlaceList)
  | deleteVisitedPlaces (placeList : PlaceList)
  | markVisitedPlaces (placeList : PlaceList)

/-- The delete button; `status` is that of `ListSortCubit`. -/
def deleteButton (status : String) (blocs : Blocs) : Except Err EditPlacesEvent := do
  let placeList ← theList blocs
  return if status = "Visited" then .deleteVisitedPlaces placeList
    else .deletePlaces placeList

def markVisitedButton (blocs : Blocs) : Except Err EditPlacesEvent := do
  let placeList ← theList blocs
  return .markVisitedPlaces placeList

/-- The reload after `EditPlacesSubmitted`. -/
def onSubmitted (status : String) (blocs : Blocs) : Except Err SavedPlacesBloc.Event := do
  let placeList ← theList blocs
  return .load placeList (status = "Visited")

/-- What the page does is about the list. -/
structure ActsOn (status : String) (blocs : Blocs) (placeList : PlaceList) : Prop where
  current : currentPlaceList blocs = some placeList
  delete : deleteButton status blocs = .ok (if status = "Visited"
    then .deleteVisitedPlaces placeList else .deletePlaces placeList)
  markVisited : markVisitedButton blocs = .ok (.markVisitedPlaces placeList)
  reload : onSubmitted status blocs = .ok (.load placeList (status = "Visited"))

/-! ## The list is never there -/

variable {firebaseUser : AuthUser} {blocs blocs' : Blocs}

theorem listless_finish (h : blocs.lists.Listless) {placeLists : Option (List PlaceList)}
    {handler : SavedListsHandler}
    (hfinish : blocs.finish firebaseUser placeLists handler = some blocs') :
    blocs'.lists.Listless := by
  cases handler with
  | loadSavedLists =>
    cases hfinish
    rfl
  | updateSavedLists =>
    obtain ⟨places, -, rfl⟩ := Option.map_eq_some_iff.mp hfinish
    exact (SavedListsBloc.listless_finishUpdate blocs.lists).begin firebaseUser _
  | addList =>
    cases hfinish
    exact h
  | removeList =>
    cases hfinish
    exact h

theorem listless_step (h : blocs.lists.Listless) {e : Happening}
    (hstep : step firebaseUser blocs e = some blocs') : blocs'.lists.Listless := by
  cases e with
  | lists handler =>
    cases hstep
    exact h.begin firebaseUser handler
  | ended k answer =>
    simp only [step] at hstep
    split at hstep
    · cases hstep
    · cases answer with
      | error e =>
        cases hstep
        exact h
      | ok placeLists =>
        have herased : { blocs with running := blocs.running.eraseIdx k }.lists.Listless := h
        exact listless_finish herased hstep
  | places e =>
    have hplaces : ∃ places, blocs' = { blocs with places := places } := by
      cases e with
      | savedListsUpdated => cases hstep
      | _ =>
        simp only [step, Option.map_eq_some_iff] at hstep
        obtain ⟨places, -, rfl⟩ := hstep
        exact ⟨places, rfl⟩
    obtain ⟨places, rfl⟩ := hplaces
    exact h

/-- Whatever has happened, a page that shows the places of a list does not
act on it: the list it takes is null, and every `currentPlaceList!`
throws. -/
theorem batch_throws (firebaseUser : AuthUser) (happenings : List Happening)
    (blocs : Blocs) (placeList : From PlaceList) (listOwner : From User)
    (placeStream : From PlaceListRepository.PlacesStream) (status : String)
    (h : Events.replay (step firebaseUser) Events.free {} happenings = some blocs)
    (_hloaded : blocs.places.state = .loaded placeList listOwner placeStream) :
    ¬ ActsOn status blocs placeList.value ∧ currentPlaceList blocs = none ∧
      deleteButton status blocs = .error .typeError ∧
      markVisitedButton blocs = .error .typeError ∧
      onSubmitted status blocs = .error .typeError := by
  have hnone : currentPlaceList blocs = none :=
    Events.replay_invariant (J := fun b => b.lists.Listless) h rfl
      fun _ _ _ hb _ hstep => listless_step hb hstep
  have hlist : theList blocs = .error .typeError := by
    rw [theList, hnone]
  refine ⟨?_, hnone, ?_, ?_, ?_⟩
  · intro hacts
    have hcurrent := hacts.current
    rw [hnone] at hcurrent
    cases hcurrent
  · rw [deleteButton, hlist]
    rfl
  · rw [markVisitedButton, hlist]
    rfl
  · rw [onSubmitted, hlist]
    rfl

/-- `ada` opens `rome` from the home page. -/
def openedRun : List Happening :=
  [.lists .loadSavedLists, .ended 0 (.ok (some [SavedPlacesBloc.cityList "rome"])),
    .places (.load (SavedPlacesBloc.cityList "rome") false),
    .places (.deliver 1 (.doc (some (userDoc "ada" ["rome"])))),
    .places (.deliver 0 (.doc (some (listDoc "ada" [])))), .places (.wait 1000),
    .places (.finish 0 {})]

/-- The page is loaded at the end of the run. -/
theorem openedRun_loaded :
    ∃ blocs placeList listOwner placeStream,
      Events.replay (step { uid := "ada" }) Events.free {} openedRun = some blocs ∧
        blocs.places.state = .loaded placeList listOwner placeStream := by
  have hrun : (Events.replay (step { uid := "ada" }) Events.free {} openedRun).any (fun b =>
      b.places.state.loaded?.isSome) = true := by decide
  obtain ⟨blocs, hblocs, hends⟩ := (Option.any_eq_true _ _).mp hrun
  obtain ⟨x, hx⟩ := Option.isSome_iff_exists.mp hends
  exact ⟨blocs, _, _, _, hblocs, SavedPlacesState.loaded?_eq_some.mp hx⟩

theorem batch_throws_opened :
    ∃ blocs, Events.replay (step { uid := "ada" }) Events.free {} openedRun = some blocs ∧
      deleteButton "Not Visited" blocs = .error .typeError := by
  obtain ⟨blocs, p, o, s, hblocs, hloaded⟩ := openedRun_loaded
  exact ⟨blocs, hblocs,
    (batch_throws { uid := "ada" } openedRun blocs p o s _ hblocs hloaded).2.2.1⟩

theorem batch_acts_on_nothing :
    ¬ ∀ (firebaseUser : AuthUser) (happenings : List Happening) (blocs : Blocs)
        (placeList : From PlaceList) (listOwner : From User)
        (placeStream : From PlaceListRepository.PlacesStream) (status : String),
      Events.replay (step firebaseUser) Events.free {} happenings = some blocs →
      blocs.places.state = .loaded placeList listOwner placeStream →
      ActsOn status blocs placeList.value := by
  intro hclaim
  obtain ⟨blocs, p, o, s, hblocs, hloaded⟩ := openedRun_loaded
  have hcurrent := (hclaim _ _ blocs p o s "Visited" hblocs hloaded).current
  have hnone : (Events.replay (step { uid := "ada" }) Events.free {} openedRun).all
      (fun b => (currentPlaceList b).isNone) = true := by decide
  rw [hblocs] at hnone
  simp [hcurrent] at hnone

end GottaGo.CategoryPage
