/-
GottaGo.Bloc.Wheel — the wheel that chooses a place
(`random_wheel_cubit.dart`, `buttons.dart`, `button_bars.dart`,
`category_page.dart`).

`CategoryPage` gives `RandomPlaceBar` the list of the state of
`SavedPlacesBloc`, which is the very list that the bloc works on. What
stands in the bar was fixed when it was built, the items of the wheel and
what a press of `GoButton` does, while a fling draws from the list as it is
then.

A frame builds the page or the bar alone, at any time. `RandomWheelLoaded`
and `RandomWheelChosen` carry places that the bar does not read.
-/
import GottaGo.Async.Events
import GottaGo.Bloc.Purchases
import GottaGo.Bloc.SavedPlaces

namespace GottaGo

open GottaGo.Rx GottaGo.PlaceListRepository

/-! ## The cubit -/

inductive RandomWheelState where
  | initial
  | loading
  | loaded
  | spun
  | chosen
  | failed
  deriving DecidableEq, Repr

structure RandomWheelCubit where
  state : RandomWheelState := .initial
  selectedPlace : Option Place := none

namespace RandomWheelCubit

def emit (state : RandomWheelState) (cubit : RandomWheelCubit) : RandomWheelCubit :=
  { cubit with state }

def loadWheel (cubit : RandomWheelCubit) : RandomWheelCubit :=
  (cubit.emit .loading).emit .loaded

def spinWheel (cubit : RandomWheelCubit) : RandomWheelCubit := cubit.emit .spun

/-- Nothing is emitted. -/
def wheelHasChosen (place : Place) (cubit : RandomWheelCubit) : RandomWheelCubit :=
  { cubit with selectedPlace := some place }

def resetWheel (cubit : RandomWheelCubit) : RandomWheelCubit := cubit.emit .initial

end RandomWheelCubit

/-- The bar shows the wheel. -/
def RandomWheelState.isOpen : RandomWheelState → Bool
  | .loaded => true
  | .spun => true
  | .chosen => true
  | _ => false

/-! ## The button -/

/-- `state.places`. -/
def SavedPlacesBloc.places (bloc : SavedPlacesBloc) : Option (List Place) :=
  match bloc.state with
  | .loaded _ _ _ => some bloc.savedPlaces
  | .updated => some bloc.savedPlaces
  | _ => none

/-- `state.placeList`. -/
def SavedPlacesBloc.placeList (bloc : SavedPlacesBloc) : Option PlaceList :=
  bloc.state.loaded?.map fun x => x.1.value

/-- What `GoButton` is when it has been built. -/
inductive GoButton where
  | waiting
  /-- A press offers the subscription. -/
  | premiumOffer
  /-- A press tells to add at least two places. -/
  | addAtLeastTwo
  | loadWheel
  /-- A press does nothing. -/
  | idle
  | error
  deriving DecidableEq, Repr

def GoButton.build (purchases : PurchasesState) (places : Option (List Place)) : GoButton :=
  match purchases with
  | .loading => .waiting
  | .loaded _ isSubscribed _ _ =>
    if isSubscribed ≠ some true then .premiumOffer
    else
      match places with
      | some places =>
        if places.isEmpty ∧ places.length < 2 then .addAtLeastTwo else .loadWheel
      | none => .idle
  | _ => .error

/-- The button asks for two places and turns away none but the empty
list. -/
theorem GoButton.build_eq_addAtLeastTwo {purchases : PurchasesState}
    {places : Option (List Place)} (h : build purchases places = .addAtLeastTwo) :
    places = some [] := by
  unfold build at h
  split at h
  · cases h
  · split at h
    · cases h
    · split at h
      · split at h
        · next hempty => rw [List.isEmpty_iff.mp hempty.1]
        · cases h
      · cases h
  · cases h

/-! ## The bar -/

/-- What `RandomPlaceBar` was given: the list of the state, and whether its
`places` is the list of the bloc or null. -/
structure RandomPlaceBar where
  currentPlaceList : Option PlaceList
  hasPlaces : Bool

namespace RandomPlaceBar

def placeListLoaded (bar : RandomPlaceBar) : Bool :=
  bar.currentPlaceList.isSome && bar.hasPlaces

/-- What it has been built to. -/
inductive View where
  | absent
  | blank
  /-- The items of the `FortuneBar`, and whether a fling does anything. -/
  | fortuneBar (items : List String) (enabled : Bool)
  /-- `PlaceListButtonBar`. -/
  | buttonBar (go : GoButton)
  /-- An exception of the builder. -/
  | error
  deriving DecidableEq

/-- The builder. `places` are those of the bloc as they are now. -/
def build (bar : RandomPlaceBar) (purchases : PurchasesState) (wheel : RandomWheelState)
    (bloc : SavedPlacesBloc) : View :=
  if wheel = .loading then .blank
  else if wheel.isOpen then
    if bar.placeListLoaded then
      match bloc.savedPlaces.mapM Place.name with
      | some items => .fortuneBar items true
      | none => .error
    else .fortuneBar [] false
  else .buttonBar (GoButton.build purchases bloc.places)

/-- The items of the wheel that the bar shows, where a fling draws. -/
def View.items? : View → Option (List String)
  | .fortuneBar items true => some items
  | _ => none

/-- The builder comes to a wheel that can be flung. -/
def opens (bar : RandomPlaceBar) (wheel : RandomWheelState) (bloc : SavedPlacesBloc) : Bool :=
  bar.placeListLoaded && wheel.isOpen && bloc.savedPlaces.all fun place => place.name.isSome

end RandomPlaceBar

/-! ## The page -/

/-- `CategoryPage`, as far as the wheel goes. `selected` is what has been
added to the controller of the `FortuneBar`. -/
structure WheelPage where
  bloc : SavedPlacesBloc := {}
  wheel : RandomWheelCubit := {}
  bar : Option RandomPlaceBar := none
  view : RandomPlaceBar.View := .absent
  selected : List Nat := []

/-- `random` is what the generator makes its number of. -/
inductive WheelEvent where
  | bloc (event : SavedPlacesBloc.Event)
  | buildPage (purchases : PurchasesState)
  | buildBar (purchases : PurchasesState)
  | go
  | fling (random : Nat)
  | reset

/-- `Random.nextInt`, which throws when `max` is not positive. -/
def nextInt (random max : Nat) : Option Nat := if max = 0 then none else some (random % max)

namespace WheelPage

def buildBar (purchases : PurchasesState) (page : WheelPage) : WheelPage :=
  match page.bar with
  | some bar => { page with view := bar.build purchases page.wheel.state page.bloc }
  | none => page

/-- The bar that the page has in this state of the bloc. -/
def barOf (bloc : SavedPlacesBloc) : Option RandomPlaceBar :=
  match bloc.state with
  | .initial => none
  | .failed => none
  | _ => some { currentPlaceList := bloc.placeList, hasPlaces := bloc.places.isSome }

def buildPage (purchases : PurchasesState) (page : WheelPage) : WheelPage :=
  { page with bar := barOf page.bloc, view := .absent }.buildBar purchases

/-- A press of `GoButton`. -/
def onGo (page : WheelPage) : WheelPage :=
  match page.view with
  | .buttonBar .loadWheel => { page with wheel := page.wheel.loadWheel }
  | _ => page

/-- What a fling sends to the wheel, and the place that it chooses. -/
def draw (random : Nat) (page : WheelPage) : Option (Nat × Place) := do
  let randomInt ← nextInt random page.bloc.savedPlaces.length
  let place ← page.bloc.savedPlaces[randomInt]?
  return (randomInt, place)

def onFling (random : Nat) (page : WheelPage) : WheelPage :=
  if page.view.items?.isSome then
    match page.draw random with
    | some (randomInt, place) =>
      { page with
        selected := page.selected ++ [randomInt]
        wheel := page.wheel.wheelHasChosen place }
    | none => page
  else page

def step (page : WheelPage) : WheelEvent → Option WheelPage
  | .bloc event => (page.bloc.step event).map fun bloc => { page with bloc }
  | .buildPage purchases => some (page.buildPage purchases)
  | .buildBar purchases => some (page.buildBar purchases)
  | .go => some page.onGo
  | .fling random => some (page.onFling random)
  | .reset => some { page with wheel := page.wheel.resetWheel }

@[simp] theorem onGo_view (page : WheelPage) : page.onGo.view = page.view := by
  unfold onGo
  split <;> rfl

@[simp] theorem onGo_bloc (page : WheelPage) : page.onGo.bloc = page.bloc := by
  unfold onGo
  split <;> rfl

@[simp] theorem onFling_view (random : Nat) (page : WheelPage) :
    (page.onFling random).view = page.view := by
  unfold onFling
  split
  · split <;> rfl
  · rfl

@[simp] theorem onFling_bloc (random : Nat) (page : WheelPage) :
    (page.onFling random).bloc = page.bloc := by
  unfold onFling
  split
  · split <;> rfl
  · rfl

end WheelPage

/-! ## Changes of the list -/

namespace SavedPlacesBloc

variable {bloc bloc' : SavedPlacesBloc}

/-- The event clears the places, or its listener adds one. -/
def changesPlaces (bloc : SavedPlacesBloc) : Event → Bool
  | .load _ _ => true
  | .updatePlace => bloc.state.loaded?.isSome
  | .savedListsUpdated => bloc.currentPlaceList.isSome
  | .deliver i (.place placeId snap) =>
    match bloc.listeners[i]? with
    | some (.places _ shown) => !(values (getPlaces.out shown (.inr (placeId, snap)))).isEmpty
    | _ => false
  | .finish k found =>
    match bloc.waiting[k]? with
    | some ⟨.addPlace _, _⟩ => found.snackbar
    | some ⟨.removePlace _, _⟩ => true
    | _ => false
  | _ => false

@[simp] theorem load_savedPlaces (placeList : PlaceList) (visited : Bool) :
    (bloc.load placeList visited).savedPlaces = [] := by
  unfold load
  split <;> rfl

@[simp] theorem finishLoad_savedPlaces (load : From Load) :
    (bloc.finishLoad load).savedPlaces = bloc.savedPlaces := by
  unfold finishLoad
  split <;> rfl

/-- Only the places themselves are delivered to the list. -/
theorem deliver_savedPlaces {i : Nat} {snap : PlacesSnapshot}
    (h : bloc.deliver i snap = some bloc') :
    (bloc.changesPlaces (.deliver i snap) = false ∧ bloc'.savedPlaces = bloc.savedPlaces) ∨
    (bloc.changesPlaces (.deliver i snap) = true ∧
      ∃ place places, bloc'.savedPlaces = bloc.savedPlaces ++ place :: places) := by
  unfold deliver at h
  split at h
  · cases h
    refine .inl ⟨rfl, ?_⟩
    unfold onPlaceList
    split <;> rfl
  · cases h
    refine .inl ⟨rfl, ?_⟩
    unfold onListOwner
    split <;> rfl
  · cases h
    refine .inl ⟨rfl, ?_⟩
    unfold onContributor
    split <;> rfl
  · cases h
    exact .inl ⟨rfl, by simp [onPlaces, getPlaces, switchMap]⟩
  · next load shown placeId d hi =>
    cases h
    cases hout : values (getPlaces.out shown (.inr (placeId, d))) with
    | nil => exact .inl ⟨by simp [changesPlaces, hi, hout], by simp [onPlaces, hout]⟩
    | cons place places =>
      exact .inr ⟨by simp [changesPlaces, hi, hout], place, places, by simp [onPlaces, hout]⟩
  · cases h

/-- The end of a delay clears the places, unless it is that of a load. -/
theorem finish_savedPlaces {k : Nat} {found : Found}
    (h : bloc.step (.finish k found) = some bloc') :
    (bloc.changesPlaces (.finish k found) = false ∧ bloc'.savedPlaces = bloc.savedPlaces) ∨
    (bloc.changesPlaces (.finish k found) = true ∧ bloc'.savedPlaces = []) := by
  simp only [step] at h
  split at h
  · next w hw =>
    split at h
    · cases h
      obtain ⟨handler, due⟩ := w
      cases handler with
      | load load => exact .inl ⟨by simp [changesPlaces, hw], by simp [finish]⟩
      | addPlace placeList =>
        cases hs : found.snackbar with
        | false => exact .inl ⟨by simp [changesPlaces, hw, hs], by simp [finish, hs]⟩
        | true => exact .inr ⟨by simp [changesPlaces, hw, hs], by simp [finish, hs]⟩
      | removePlace placeList =>
        exact .inr ⟨by simp [changesPlaces, hw], by simp [finish]⟩
    · cases h
  · cases h

/-- What an event does to the places: nothing, or it clears them, or it adds
some at the end. -/
theorem step_savedPlaces {event : Event} (h : bloc.step event = some bloc') :
    (bloc.changesPlaces event = false ∧ bloc'.savedPlaces = bloc.savedPlaces) ∨
    (bloc.changesPlaces event = true ∧
      (bloc'.savedPlaces = [] ∨
        ∃ place places, bloc'.savedPlaces = bloc.savedPlaces ++ place :: places)) := by
  cases event with
  | load placeList visited =>
    cases h
    exact .inr ⟨rfl, .inl (by simp)⟩
  | addPlace placeList =>
    cases h
    exact .inl ⟨rfl, rfl⟩
  | removePlace placeList =>
    cases h
    exact .inl ⟨rfl, rfl⟩
  | updatePlace =>
    cases hs : bloc.state with
    | loaded placeList listOwner placeStream =>
      simp only [step, hs, Option.some.injEq] at h
      subst h
      exact .inr ⟨by simp [changesPlaces, hs, SavedPlacesState.loaded?], .inl (by simp)⟩
    | _ =>
      simp only [step, hs, Option.some.injEq] at h
      subst h
      exact .inl ⟨by simp [changesPlaces, hs, SavedPlacesState.loaded?], rfl⟩
  | savedListsUpdated =>
    cases hp : bloc.currentPlaceList with
    | none =>
      simp only [step, hp, Option.some.injEq] at h
      subst h
      exact .inl ⟨by simp [changesPlaces, hp], rfl⟩
    | some placeList =>
      simp only [step, hp, Option.some.injEq] at h
      subst h
      exact .inr ⟨by simp [changesPlaces, hp], .inl (by simp)⟩
  | deliver i snap =>
    rcases deliver_savedPlaces h with hsame | ⟨hchanges, hadded⟩
    · exact .inl hsame
    · exact .inr ⟨hchanges, .inr hadded⟩
  | wait ms =>
    simp only [step] at h
    split at h
    · cases h
      exact .inl ⟨rfl, rfl⟩
    · cases h
  | finish k found =>
    rcases finish_savedPlaces h with hsame | ⟨hchanges, hcleared⟩
    · exact .inl hsame
    · exact .inr ⟨hchanges, .inl hcleared⟩

end SavedPlacesBloc

end GottaGo
