/-
GottaGo.Bloc.Explore — the lists of `ExploreBloc` (`lib/bloc/explore/`) and
the buttons of `ExplorePage` that change them (`lib/view/pages/explore.dart`).

The bloc has three lists of names. Its handler of `LoadExplore` adds to two
of them before its first await, and then builds the prompt from all three.
The page changes the lists directly: a thumb adds the name of the explored
place to a list or takes it out, by a flag that the page keeps and sets anew
whenever it is built, and the Explore button remembers a place that has no
thumb. What the handler awaits changes no list and is not modelled.
-/
import GottaGo.Async.Events

namespace GottaGo

/-- The lists that the prompt is built from. -/
structure ExploreLists where
  negativeQueries : List String := []
  positiveQueries : List String := []
  queryHistory : List String := []
  deriving DecidableEq, Repr

structure LoadExplore where
  placeType : String := ""
  city : Option String := none
  state : Option String := none
  query : Option String := none
  negativeQuery : Option String := none
  positiveQuery : Option String := none
  deriving DecidableEq, Repr

namespace ExploreBloc

/-- The arguments that the handler takes to be there (`!`). -/
inductive Missing where
  | query
  | city
  | state
  deriving DecidableEq, Repr

/-- The loops over a list: its names with commas between them. -/
def joined : List String → String
  | [] => ""
  | [name] => name
  | name :: next :: names => name ++ ", " ++ joined (next :: names)

def createExploreChatGPTQuery (s : ExploreLists) (placeType city state : String) : String :=
  let basePrompt := "Give me 1 place to visit within 1 hour of " ++ city ++ ", " ++ state ++
    " that matches this type: " ++ placeType ++ ". Ensure it's well-reviewed. Return in JSON format with: name, type, description, city, state. Set the value to null if no data is available."
  let basePrompt := if s.queryHistory = [] then basePrompt
    else basePrompt ++ " Exclude these places: " ++ joined s.queryHistory
  let basePrompt := if s.negativeQueries = [] then basePrompt
    else basePrompt ++ " Exclude these places & places like it: " ++ joined s.negativeQueries ++
      ". "
  if s.positiveQueries = [] then basePrompt
  else basePrompt ++
    " Prioritize places similar to these suggestions, Exclude the suggestions themselves: " ++
    joined s.positiveQueries ++ ". "

/-- What the handler does with the negative query. -/
def addNegative (event : LoadExplore) (s : ExploreLists) : ExploreLists :=
  match event.negativeQuery with
  | none => s
  | some negativeQuery =>
    if negativeQuery ∉ s.negativeQueries ∧ negativeQuery ∉ s.positiveQueries then
      { s with negativeQueries := s.negativeQueries ++ [negativeQuery] }
    else s

/-- What it does with the positive query, which may throw at `event.query!`. -/
def addPositive (event : LoadExplore) (s : ExploreLists) : Except Missing ExploreLists :=
  match event.positiveQuery with
  | none => return s
  | some positiveQuery =>
    match event.query with
    | none => .error .query
    | some query =>
      if query ∉ s.positiveQueries ∧ query ∉ s.negativeQueries then
        return { s with positiveQueries := s.positiveQueries ++ [positiveQuery] }
      else return s

/-- The handler up to its first await: the lists it leaves, and the prompt it
sends or what it throws. -/
def onLoadExplore (event : LoadExplore) (s : ExploreLists) :
    ExploreLists × Except Missing String :=
  let s := addNegative event s
  match addPositive event s with
  | .error e => (s, .error e)
  | .ok s =>
    match event.city, event.state with
    | none, _ => (s, .error .city)
    | some _, none => (s, .error .state)
    | some city, some state => (s, .ok (createExploreChatGPTQuery s event.placeType city state))

end ExploreBloc

/-- An `ExplorePage` that shows an explored place. -/
structure ExplorePage where
  name : String
  isDisliked : Bool
  isLiked : Bool
  deriving DecidableEq, Repr

/-- The page as it is built for a place. -/
def ExplorePage.build (s : ExploreLists) (name : String) : ExplorePage where
  name := name
  isDisliked := name ∈ s.negativeQueries
  isLiked := name ∈ s.positiveQueries

/-- The bloc and the page, and what handlers have thrown so far. -/
structure Exploring where
  lists : ExploreLists := {}
  page : Option ExplorePage := none
  thrown : List ExploreBloc.Missing := []
  deriving DecidableEq, Repr

/-- What happens to them. The Explore button also adds a `LoadExplore`, which
is handled by an event of its own. -/
inductive ExploreHappening where
  /-- The bloc handles an event. -/
  | loadExplore (event : LoadExplore)
  /-- The page is built for the place of an `ExploreLoaded`. -/
  | built (name : String)
  /-- The page is built for another state. -/
  | hidden
  | thumbDown
  | thumbUp
  | exploreButton
  deriving DecidableEq, Repr

namespace Exploring

def loadExplore (event : LoadExplore) (s : Exploring) : Exploring :=
  match ExploreBloc.onLoadExplore event s.lists with
  | (lists, .ok _) => { s with lists := lists }
  | (lists, .error e) => { s with lists := lists, thrown := s.thrown ++ [e] }

def thumbDown (page : ExplorePage) (s : Exploring) : Exploring where
  lists := { s.lists with
    negativeQueries :=
      if page.isDisliked = false then s.lists.negativeQueries ++ [page.name]
      else s.lists.negativeQueries.erase page.name }
  page := some { page with isDisliked := !page.isDisliked }
  thrown := s.thrown

def thumbUp (page : ExplorePage) (s : Exploring) : Exploring where
  lists := { s.lists with
    positiveQueries :=
      if page.isLiked = false then s.lists.positiveQueries ++ [page.name]
      else s.lists.positiveQueries.erase page.name }
  page := some { page with isLiked := !page.isLiked }
  thrown := s.thrown

def exploreButton (page : ExplorePage) (s : Exploring) : Exploring :=
  if page.isDisliked = false ∧ page.isLiked = false then
    { s with lists := { s.lists with queryHistory := s.lists.queryHistory ++ [page.name] } }
  else s

/-- The buttons are there while a place is shown. -/
def step (s : Exploring) : ExploreHappening → Option Exploring
  | .loadExplore event => some (s.loadExplore event)
  | .built name => some { s with page := some (.build s.lists name) }
  | .hidden => some { s with page := none }
  | .thumbDown => s.page.map fun page => s.thumbDown page
  | .thumbUp => s.page.map fun page => s.thumbUp page
  | .exploreButton => s.page.map fun page => s.exploreButton page

end Exploring

end GottaGo
