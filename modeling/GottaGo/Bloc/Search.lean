/-
GottaGo.Bloc.Search — `AutocompleteBloc` and `PlaceBloc`
(`lib/bloc/autocomplete/`, `lib/bloc/place/place_bloc.dart`).

Both ask the places service over HTTP (`PlacesRepository`). The service is
not modelled: a call is answered by a value or by an exception. What it
returns is passed on.

Both handlers begin with `_placesSubscription?.cancel()`. The field is
never assigned, so this does nothing, and it is left out.
-/
import GottaGo.Async.Bloc
import GottaGo.Model.GooglePlace

namespace GottaGo

open GottaGo.Async GottaGo.Firestore

/-- A suggestion. -/
structure PlaceSearch where
  description : Option String := none
  placeId : Option String := none
  deriving DecidableEq, Repr

/-- The calls of `PlacesRepository`. -/
inductive PlacesCall where
  | getAutoComplete (search : String)
  | getPlace (placeId : String)
  deriving DecidableEq, Repr

/-- What they return. -/
abbrev PlacesCall.Answer : PlacesCall → Type
  | .getAutoComplete _ => List PlaceSearch
  | .getPlace _ => GooglePlace

/-! ## Suggestions -/

inductive AutocompleteState where
  | loading
  | loaded (autocomplete : List PlaceSearch)
  | failed
  deriving DecidableEq, Repr

structure LoadAutocomplete where
  searchInput : String := ""

namespace AutocompleteBloc

def onLoadAutocomplete (event : LoadAutocomplete) :
    Handler AutocompleteState PlacesCall PlacesCall.Answer Err Unit := do
  let autoComplete ← Handler.call (.getAutoComplete event.searchInput)
  Handler.emit (.loaded autoComplete)

/-- The state that carries the response to the event. -/
def responseTo (resp : Nat → (c : PlacesCall) → c.Answer) (i : Nat)
    (event : LoadAutocomplete) : AutocompleteState :=
  .loaded (resp i (.getAutoComplete event.searchInput))

theorem delivers_onLoadAutocomplete (resp : Nat → (c : PlacesCall) → c.Answer) (i : Nat)
    (event : LoadAutocomplete) :
    (onLoadAutocomplete event).Delivers (resp i) (responseTo resp i event) :=
  .inr ⟨rfl, rfl⟩

end AutocompleteBloc

/-! ## One place -/

inductive PlaceState where
  | loading
  | loaded (googlePlace : GooglePlace)
  | failed
  deriving DecidableEq, Repr

structure LoadPlace where
  placeId : String

namespace PlaceBloc

def onLoadPlace (event : LoadPlace) :
    Handler PlaceState PlacesCall PlacesCall.Answer Err Unit := do
  let googlePlace ← Handler.call (.getPlace event.placeId)
  Handler.emit (.loaded googlePlace)

/-- The state that carries the response to the event. -/
def responseTo (resp : Nat → (c : PlacesCall) → c.Answer) (i : Nat) (event : LoadPlace) :
    PlaceState :=
  .loaded (resp i (.getPlace event.placeId))

theorem delivers_onLoadPlace (resp : Nat → (c : PlacesCall) → c.Answer) (i : Nat)
    (event : LoadPlace) : (onLoadPlace event).Delivers (resp i) (responseTo resp i event) :=
  .inr ⟨rfl, rfl⟩

end PlaceBloc

end GottaGo
