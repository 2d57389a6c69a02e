/-
GottaGo.Explore.Screen — `ExploreBloc` with its handlers under way, and
`ExplorePage` (`lib/bloc/explore/`, `lib/view/pages/explore.dart`).

Every `LoadExplore` starts a handler of its own: it emits the loading state,
asks the chat service for a place, the places service for suggestions for
it and then for the details of the first one, and emits what it has found.
Whatever is thrown on the way ends in the error state. Handlers do not wait
for one another, and what a handler of `AddPlaceToNewList` does when its
call throws is to emit the error state as well.

The page has a button that adds a `LoadExplore` with the texts of its three
fields, unless it is built for the loading state. It is built anew some time
after the state has changed or the location dialog has closed; until then it
is there as it was (`shown`, `chip`). `exploring` are the lists of the bloc and
the thumbs of the page, `locating` its location and the dialog that sets it.

The services are not modelled: load number `i` is answered by `resp i`.
-/
import GottaGo.Async.Prog
import GottaGo.Bloc.Explore
import GottaGo.Bloc.Search
import GottaGo.Explore.Location
import GottaGo.Repository.ChatGPT

namespace GottaGo

open GottaGo.Async

inductive ExploreState where
  | initial
  | loading
  | loaded (googlePlace : GooglePlace) (gptPlace : GptPlace)
      (placeType city state query : String)
  | error (message : String)
  deriving DecidableEq, Repr

/-- The calls of a `LoadExplore`. -/
inductive ExploreCall where
  | chatComplete (messages : List String) (name : String)
  | places (call : PlacesCall)
  deriving DecidableEq, Repr

/-- What they return. -/
abbrev ExploreCall.Answer : ExploreCall → Type
  | .chatComplete _ _ => Option GptPlace
  | .places call => call.Answer

/-- An asynchronous function that makes such calls. -/
abbrev ExploreProg (α : Type) := Prog ExploreCall ExploreCall.Answer Json.Thrown α

/-- How the calls of a load are answered. -/
abbrev ExploreAnswer := (c : ExploreCall) → Except Json.Thrown c.Answer

namespace ExploreBloc

/-- The text that the places are searched for. -/
def searchFor (gptPlace : GptPlace) : String :=
  gptPlace.name ++ ", " ++ gptPlace.city ++ ", " ++ gptPlace.state

/-- `results[0].placeId!`. -/
def firstPlaceId : List PlaceSearch → ExploreProg String
  | [] => .raise .rangeError
  | result :: _ =>
    match result.placeId with
    | none => .raise .typeError
    | some placeId => .ret placeId

/-- The handler of `LoadExplore` from its first await on, up to the state that
it emits. -/
def explore (prompt : String) : ExploreProg (Option (GooglePlace × GptPlace)) := do
  let gptPlace ← Prog.await (ExploreCall.chatComplete [prompt] "User")
  match gptPlace with
  | none => return none
  | some gptPlace => do
    let results ← Prog.await (ExploreCall.places (.getAutoComplete (searchFor gptPlace)))
    let placeId ← firstPlaceId results
    let googlePlace ← Prog.await (ExploreCall.places (.getPlace placeId))
    return some (googlePlace, gptPlace)

/-- The message of every error. -/
def noResponse : ExploreState := .error "No response"

end ExploreBloc

/-- A handler of `LoadExplore`: its event, the place that the page showed then,
the lists that the prompt was built from, the prompt, and what is left of
it. -/
structure ExploreLoad where
  event : LoadExplore
  leaving : Option String
  lists : ExploreLists
  prompt : String
  rest : ExploreProg (Option (GooglePlace × GptPlace))

structure ExploreScreen where
  /-- `state` of the bloc. -/
  state : ExploreState := .initial
  searchQuery : String := ""
  exploring : Exploring := {}
  locating : Locating := {}
  /-- The loads so far, those that have ended included. -/
  loads : List ExploreLoad := []
  /-- The calls of `addPlaceToListByName` under way. -/
  adding : List (Place × String) := []
  /-- The state that the page is built for, if it is open. -/
  shown : Option ExploreState := none
  /-- The location that it is built for. -/
  chip : String := ""
  /-- The dialog has closed, and the page has not been built since. -/
  rebuilding : Bool := false
  /-- The text of `_searchController`. -/
  search : String := ""

/-- What happens to the screen. -/
inductive ExploreMove where
  | openPage
  | leavePage
  | build
  | typeSearch (text : String)
  | explore
  | thumbDown
  | thumbUp
  | locate (m : LocatingMove)
  /-- The event `AddPlaceToNewList`. -/
  | addPlaceToNewList (place : Place) (placeListName : String)
  /-- Call number `i` of `addPlaceToListByName` ends. -/
  | added (i : Nat) (ok : Bool)
  /-- Load number `i` is answered. -/
  | answer (i : Nat)

namespace ExploreScreen

/-! ## The bloc -/

/-- The handler of `LoadExplore` up to its first await. -/
def loadExplore (event : LoadExplore) (s : ExploreScreen) : ExploreScreen :=
  match ExploreBloc.onLoadExplore event s.exploring.lists with
  | (lists, .ok prompt) =>
    { s with
      state := .loading
      exploring := s.exploring.loadExplore event
      loads := s.loads ++ [{
        event := event
        leaving := s.exploring.page.map ExplorePage.name
        lists := lists
        prompt := prompt
        rest := ExploreBloc.explore prompt }] }
  | (_, .error _) =>
    { s with state := ExploreBloc.noResponse, exploring := s.exploring.loadExplore event }

/-- What the handler emits when it has come to an end. -/
def outcome (event : LoadExplore) (searchQuery : String) :
    Except Json.Thrown (Option (GooglePlace × GptPlace)) → ExploreState
  | .ok (some (googlePlace, gptPlace)) =>
    match event.city, event.state with
    | some city, some state =>
      .loaded googlePlace gptPlace event.placeType city state searchQuery
    | _, _ => ExploreBloc.noResponse
  | .ok none => ExploreBloc.noResponse
  | .error _ => ExploreBloc.noResponse

/-- Load number `i` has come to `rest`. -/
def proceed (i : Nat) (load : ExploreLoad)
    (rest : ExploreProg (Option (GooglePlace × GptPlace))) (s : ExploreScreen) : ExploreScreen :=
  let s := { s with loads := s.loads.set i { load with rest := rest } }
  match rest with
  | .ret found => { s with state := outcome load.event s.searchQuery (.ok found) }
  | .raise e => { s with state := outcome load.event s.searchQuery (.error e) }
  | .ask _ _ => s

def answer (resp : Nat → ExploreAnswer) (i : Nat) (s : ExploreScreen) : Option ExploreScreen :=
  match s.loads[i]? with
  | some load => (load.rest.answer? (resp i)).map fun rest => s.proceed i load rest
  | none => none

/-- Call number `i` of `addPlaceToListByName` has returned or thrown. -/
def onAdded (i : Nat) (ok : Bool) (s : ExploreScreen) : ExploreScreen :=
  { s with
    adding := s.adding.eraseIdx i
    state := if ok then s.state else ExploreBloc.noResponse }

/-! ## The page -/

/-- What the page is built for. -/
def built : ExploreState → ExploreHappening
  | .loaded _ gptPlace _ _ _ _ => .built gptPlace.name
  | _ => .hidden

/-- Something happens to the lists and the thumbs. -/
def explored (h : ExploreHappening) (s : ExploreScreen) : Option ExploreScreen :=
  (s.exploring.step h).map fun exploring => { s with exploring := exploring }

def build (s : ExploreScreen) : Option ExploreScreen :=
  { s with
    shown := some s.state
    chip := s.locating.location
    rebuilding := false }.explored (built s.state)

/-- The page has its fields and buttons, and no dialog is over them. -/
def HasButtons (s : ExploreScreen) : Prop :=
  (∃ state ∈ s.shown, state ≠ .loading) ∧ s.locating.dialog = none

instance (s : ExploreScreen) : Decidable s.HasButtons :=
  inferInstanceAs (Decidable (_ ∧ _))

/-- What the Explore button asks for. -/
def request (s : ExploreScreen) : LoadExplore where
  placeType := Dart.trim s.search
  city := some s.locating.city
  state := some s.locating.state

/-- The Explore button. A place that is shown is remembered before the handler
starts. -/
def press (s : ExploreScreen) : ExploreScreen :=
  let remembered := (s.explored .exploreButton).getD s
  remembered.loadExplore s.request

/-- The dialog opens from the page, and stays open when the page is built
anew. Its end calls `setState`. -/
def locate (m : LocatingMove) (s : ExploreScreen) : Option ExploreScreen :=
  if m = .openDialog ∧ ¬ s.HasButtons then none
  else (s.locating.step m).map fun locating =>
    { s with locating := locating, rebuilding := s.rebuilding || locating.dialog.isNone }

def step (resp : Nat → ExploreAnswer) (s : ExploreScreen) : ExploreMove → Option ExploreScreen
  | .openPage => if s.shown = none then { s with search := "" }.build else none
  | .leavePage =>
    if s.shown ≠ none ∧ s.locating.dialog = none then
      { s with shown := none }.explored .hidden
    else none
  | .build => if s.shown ≠ none then s.build else none
  | .typeSearch text =>
    if s.HasButtons then some { s with search := text, searchQuery := text } else none
  | .explore => if s.HasButtons then some s.press else none
  | .thumbDown => if s.HasButtons then s.explored .thumbDown else none
  | .thumbUp => if s.HasButtons then s.explored .thumbUp else none
  | .locate m => s.locate m
  | .addPlaceToNewList place placeListName =>
    some { s with adding := s.adding ++ [(place, placeListName)] }
  | .added i ok => if i < s.adding.length then some (s.onAdded i ok) else none
  | .answer i => s.answer resp i

end ExploreScreen

end GottaGo
