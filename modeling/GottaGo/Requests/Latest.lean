/-
GottaGo.Requests.Latest — which response a bloc shows in the end.

`AutocompleteBloc`, `PlaceBloc` and `PurchasesBloc` run a handler for every
event, and a handler shows the response to its own event when that has
arrived, whatever has been asked in the meantime. So the bloc ends up with
the response that arrives last, and that is the one to the latest event
only if the responses arrive so (`latest_response_iff`).
-/
import GottaGo.Bloc.Purchases
import GottaGo.Bloc.Search

namespace GottaGo

open GottaGo.Async

/-- Of any number of loads added in any state while others are under way,
their responses arriving in any order and none failing: once all handlers
have ended, the state carries the response to the load added last just when
the response that arrives last is to that load, or says the same. -/
theorem latest_response_iff (resp : Nat → (c : PlacesCall) → c.Answer)
    (customerResp : Nat → (c : CustomerCall) → c.Answer) :
    (∀ s ms b, Events.replay (Running.stepBy AutocompleteBloc.onLoadAutocomplete resp)
        Events.free ⟨{ state := s }, [], 0⟩ ms = some b →
      b.Ended → Running.added ms ≠ [] →
      (Running.LatestWins (AutocompleteBloc.responseTo resp) ms b.bloc.state ↔
        Running.due (AutocompleteBloc.responseTo resp) ms (Running.lastMover ms) =
          Running.due (AutocompleteBloc.responseTo resp) ms
            ((Running.added ms).length - 1))) ∧
    (∀ s ms b, Events.replay (Running.stepBy PlaceBloc.onLoadPlace resp)
        Events.free ⟨{ state := s }, [], 0⟩ ms = some b →
      b.Ended → Running.added ms ≠ [] →
      (Running.LatestWins (PlaceBloc.responseTo resp) ms b.bloc.state ↔
        Running.due (PlaceBloc.responseTo resp) ms (Running.lastMover ms) =
          Running.due (PlaceBloc.responseTo resp) ms ((Running.added ms).length - 1))) ∧
    (∀ s ms b, Events.replay (Running.stepBy PurchasesBloc.onLoad customerResp)
        Events.free ⟨{ state := s }, [], 0⟩ ms = some b →
      b.Ended → Running.added ms ≠ [] →
      (Running.LatestWins (PurchasesBloc.responseTo customerResp) ms b.bloc.state ↔
        Running.due (PurchasesBloc.responseTo customerResp) ms (Running.lastMover ms) =
          Running.due (PurchasesBloc.responseTo customerResp) ms
            ((Running.added ms).length - 1))) := by
  refine ⟨?_, ?_, ?_⟩
  · intro s ms b
    exact Running.latestWins_iff (AutocompleteBloc.delivers_onLoadAutocomplete resp)
  · intro s ms b
    exact Running.latestWins_iff (PlaceBloc.delivers_onLoadPlace resp)
  · intro s ms b
    exact Running.latestWins_iff (PurchasesBloc.delivers_onLoad customerResp)

/-! ## Two queries -/

/-- Each query has a suggestion of its own. -/
def echo (_ : Nat) : (c : PlacesCall) → c.Answer
  | .getAutoComplete search => [{ description := some search }]
  | .getPlace placeId => { placeId := some placeId }

/-- A customer who has bought nothing, and a shop that has nothing. -/
def emptyShop : (c : CustomerCall) → c.Answer
  | .getCustomerInfo => {}
  | .purchasePackage _ => {}
  | .restorePurchases => {}
  | .getOfferings => {}
  | .getProducts _ => []

/-- `r` and `ro` are typed, and the suggestions for `r` come last. -/
def overtaken : List (Running.Arrival LoadAutocomplete) :=
  [.add { searchInput := "r" }, .add { searchInput := "ro" }, .arrive 1, .arrive 0]

/-- The suggestions for `ro` come last. -/
def inTurn : List (Running.Arrival LoadAutocomplete) :=
  [.add { searchInput := "r" }, .add { searchInput := "ro" }, .arrive 0, .arrive 1]

/-- Where a run ends with its handlers. -/
theorem exists_ended (ms : List (Running.Arrival LoadAutocomplete))
    (h : (Events.replay (Running.stepBy AutocompleteBloc.onLoadAutocomplete echo)
      Events.free ⟨{ state := .loading }, [], 0⟩ ms).any (fun b => decide b.Ended) = true) :
    ∃ b, Events.replay (Running.stepBy AutocompleteBloc.onLoadAutocomplete echo)
      Events.free ⟨{ state := .loading }, [], 0⟩ ms = some b ∧ b.Ended := by
  obtain ⟨b, hb, hend⟩ := (Option.any_eq_true _ _).mp h
  exact ⟨b, hb, of_decide_eq_true hend⟩

theorem latest_response_ro :
    ∃ b, Events.replay (Running.stepBy AutocompleteBloc.onLoadAutocomplete echo)
        Events.free ⟨{ state := .loading }, [], 0⟩ inTurn = some b ∧
      Running.LatestWins (AutocompleteBloc.responseTo echo) inTurn b.bloc.state := by
  obtain ⟨b, hb, hend⟩ := exists_ended inTurn (by decide)
  exact ⟨b, hb, ((latest_response_iff echo fun _ => emptyShop).1 _ _ b hb hend (by decide)).mpr rfl⟩

/-- The bloc ends up with the suggestions for `r`. -/
theorem latest_response_lost :
    ¬ ∀ (resp : Nat → (c : PlacesCall) → c.Answer)
        (ms : List (Running.Arrival LoadAutocomplete)) b,
      Events.replay (Running.stepBy AutocompleteBloc.onLoadAutocomplete resp)
        Events.free ⟨{ state := .loading }, [], 0⟩ ms = some b →
      b.Ended → Running.added ms ≠ [] →
      Running.LatestWins (AutocompleteBloc.responseTo resp) ms b.bloc.state := by
  intro h
  obtain ⟨b, hb, hend⟩ := exists_ended overtaken (by decide)
  have hlatest := h echo overtaken b hb hend (by decide)
  rw [Running.latestWins_iff (AutocompleteBloc.delivers_onLoadAutocomplete echo) hb hend
    (by decide)] at hlatest
  exact absurd hlatest (by decide)

end GottaGo
