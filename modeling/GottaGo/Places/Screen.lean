/-
GottaGo.Places.Screen — `SavedPlacesBloc` over a database that changes.

A listener is due the snapshot of the moment it is opened, and one more
whenever what it listens to changes. Snapshots of one listener come in
order, those of different listeners in any order. The documents that
`getPlaces` merges are listened to one by one: they have listeners of
their own below that of the subcollection, and each snapshot of the
subcollection closes them and opens new ones. No other listener is ever
closed.

`feed` holds the snapshots on their way, and `log` those delivered.
`Current` says what the two are for: the last snapshot issued to a
listener that is open is of what it listens to now.
-/
import GottaGo.Places.Loads
import GottaGo.Rx.Feed
import Mathlib.Data.List.AList

namespace GottaGo

open GottaGo.Async GottaGo.Firestore GottaGo.Rx GottaGo.PlaceListRepository

/-- The documents of a database, listed. -/
abbrev Docs := AList fun _ : Path => Doc

/-- Writing what is there already changes nothing. -/
def Docs.put (docs : Docs) (p : Path) (d : Doc) : Docs :=
  if docs.lookup p = some d then docs else docs.insert p d

namespace Load

/-- A document of the subcollection that is loaded. -/
def placePath (l : Load) (placeId : String) : Path :=
  if l.visited then .visitedPlaces l.placeListId placeId else .places l.placeListId placeId

/-- The id of a document of the subcollection. -/
def placeIdOf (l : Load) : Path → Option String
  | .places placeListId placeId =>
    if l.visited = false ∧ placeListId = l.placeListId then some placeId else none
  | .visitedPlaces placeListId placeId =>
    if l.visited = true ∧ placeListId = l.placeListId then some placeId else none
  | _ => none

theorem placeIdOf_eq_some {l : Load} {p : Path} {placeId : String} :
    l.placeIdOf p = some placeId ↔ p = l.placePath placeId := by
  cases hv : l.visited <;> cases p <;>
    simp [placeIdOf, placePath, hv]

/-- The subcollection that is loaded. -/
def collection (docs : Docs) (l : Load) : List (String × Doc) :=
  docs.entries.filterMap fun e => (l.placeIdOf e.1).map fun placeId => (placeId, e.2)

theorem mem_collection {docs : Docs} {l : Load} {placeId : String} {d : Doc} :
    (placeId, d) ∈ l.collection docs ↔ docs.lookup (l.placePath placeId) = some d := by
  rw [← Option.mem_def, AList.mem_lookup_iff, collection, List.mem_filterMap]
  constructor
  · intro h
    obtain ⟨⟨p, d'⟩, hmem, hid⟩ := h
    obtain ⟨placeId', hp, heq⟩ := Option.map_eq_some_iff.mp hid
    cases heq
    rwa [← placeIdOf_eq_some.mp hp]
  · intro h
    exact ⟨_, h, by simp [placeIdOf_eq_some.mpr rfl]⟩

/-- A subcollection has one document of each id. -/
theorem collection_nodup (docs : Docs) (l : Load) :
    ((l.collection docs).map Prod.fst).Nodup := by
  have hkeys : (l.collection docs).map Prod.fst = docs.keys.filterMap l.placeIdOf := by
    rw [collection, List.map_filterMap, AList.keys, List.keys, List.filterMap_map]
    apply List.filterMap_congr
    intro e _
    cases h : l.placeIdOf e.1 <;> simp [h]
  rw [hkeys]
  apply docs.keys_nodup.filterMap
  intro p q placeId hp hq
  rw [placeIdOf_eq_some.mp hp, placeIdOf_eq_some.mp hq]

end Load

/-! ## Listeners -/

/-- The number of a listener of the bloc, and the id of the place for one
of those that `getPlaces` opens below it. -/
abbrev Sub := Nat × Option String

/-- The place a snapshot is of. -/
def PlacesSnapshot.placeId? : PlacesSnapshot → Option String
  | .place placeId _ => some placeId
  | _ => none

/-- A snapshot of a subcollection has one document of each id. -/
def PlacesSnapshot.Distinct : PlacesSnapshot → Prop
  | .docs ds => (ds.map Prod.fst).Nodup
  | _ => True

namespace PlacesListener

/-- The snapshot a listener is due. -/
def read (docs : Docs) : PlacesListener → Option String → PlacesSnapshot
  | .placeList load, none => .doc (docs.lookup (.placeLists load.value.placeListId))
  | .listOwner load, none => .doc (docs.lookup (.users load.value.placeList.listOwnerId))
  | .contributor _ userId, none => .doc (docs.lookup (.users userId))
  | .places load _, none => .docs (load.value.collection docs)
  | x, some placeId => .place placeId (docs.lookup (x.load.value.placePath placeId))

/-- The places with a listener of their own. -/
def below : PlacesListener → List String
  | .places _ (some placeIds) => placeIds
  | _ => []

/-- The listeners whose snapshots show. -/
def watched : PlacesListener → Bool
  | .listOwner _ => false
  | _ => true

end PlacesListener

/-- All the listeners that are open. -/
def openSubs (xs : List PlacesListener) : List Sub :=
  xs.zipIdx.flatMap fun x => (x.2, none) :: x.1.below.map fun placeId => (x.2, some placeId)

theorem mem_openSubs {xs : List PlacesListener} {q : Sub} :
    q ∈ openSubs xs ↔ ∃ x, xs[q.1]? = some x ∧ ∀ placeId, q.2 = some placeId →
      placeId ∈ x.below := by
  obtain ⟨i, o⟩ := q
  simp only [openSubs, List.mem_flatMap, List.mem_cons, List.mem_map, Prod.exists,
    List.mem_zipIdx_iff_getElem?, Prod.mk.injEq]
  constructor
  · intro h
    obtain ⟨x, j, hx, ⟨rfl, rfl⟩ | ⟨placeId, hmem, rfl, rfl⟩⟩ := h
    · exact ⟨x, hx, by simp⟩
    · exact ⟨x, hx, by simpa using hmem⟩
  · intro h
    obtain ⟨x, hx, hbelow⟩ := h
    cases o with
    | none => exact ⟨x, i, hx, .inl ⟨rfl, rfl⟩⟩
    | some placeId => exact ⟨x, i, hx, .inr ⟨placeId, hbelow placeId rfl, rfl, rfl⟩⟩

/-- What is issued to the listeners `qs`. -/
def issue (docs : Docs) (xs : List PlacesListener) (qs : List Sub) :
    List (Sub × PlacesSnapshot) :=
  qs.filterMap fun q => xs[q.1]?.map fun x => (q, x.read docs q.2)

/-! ## The screen -/

structure Screen where
  docs : Docs
  bloc : SavedPlacesBloc := {}
  feed : List (Sub × PlacesSnapshot) := []
  log : List (Sub × PlacesSnapshot) := []

namespace Screen

/-- What happens: a document is written or deleted, a load is requested, a
listener gets the oldest snapshot on its way, time passes, a delay
ends. -/
inductive Happening where
  | put (p : Path) (d : Doc)
  | del (p : Path)
  | load (placeList : PlaceList) (visited : Bool)
  | deliver (q : Sub)
  | wait (ms : Nat)
  | finish (k : Nat)

/-- The listeners whose snapshot a change of the documents has changed. -/
def changed (docs docs' : Docs) (xs : List PlacesListener) : List Sub :=
  (openSubs xs).filter fun q =>
    xs[q.1]?.any fun x => x.read docs' q.2 ≠ x.read docs q.2

def change (s : Screen) (docs' : Docs) : Screen :=
  { s with
    docs := docs'
    feed := s.feed ++ issue docs' s.bloc.listeners (changed s.docs docs' s.bloc.listeners) }

/-- The listeners below `i` that a snapshot of a subcollection closes. -/
def closes (i : Nat) (snap : PlacesSnapshot) (q : Sub) : Bool :=
  match snap with
  | .docs _ => q.1 = i && q.2.isSome
  | _ => false

/-- The bloc has come to `bloc`, and `kept` stays on its way. Listeners
that are new, or in the place of `closed` ones, are issued a snapshot. -/
def advance (s : Screen) (bloc : SavedPlacesBloc) (kept : List (Sub × PlacesSnapshot))
    (closed : Sub → Bool) : Screen :=
  { s with
    bloc := bloc
    feed := kept ++ issue s.docs bloc.listeners
      ((openSubs bloc.listeners).filter fun q =>
        s.bloc.listeners.length ≤ q.1 || closed q) }

/-- Listener `q` is given the oldest snapshot on its way. -/
def deliver (s : Screen) (q : Sub) : Option Screen :=
  match take? q s.feed with
  | some (snap, rest) =>
    (s.bloc.step (.deliver q.1 snap)).map fun bloc =>
      { s with log := s.log ++ [(q, snap)] }.advance bloc
        (rest.filter fun e => !closes q.1 snap e.1) (closes q.1 snap)
  | none => none

/-- What happens to the bloc alone. -/
def inBloc (s : Screen) (e : SavedPlacesBloc.Event) : Option Screen :=
  (s.bloc.step e).map fun bloc => s.advance bloc s.feed fun _ => false

def step (s : Screen) : Happening → Option Screen
  | .put p d => some (s.change (s.docs.put p d))
  | .del p => some (s.change (s.docs.erase p))
  | .load placeList visited => s.inBloc (.load placeList visited)
  | .deliver q => s.deliver q
  | .wait ms => s.inBloc (.wait ms)
  | .finish k => s.inBloc (.finish k {})

/-! ## Snapshots -/

/-- What is on its way is on its way to listeners that are open. -/
def Sound (s : Screen) : Prop :=
  ∀ e ∈ s.feed, e.1 ∈ openSubs s.bloc.listeners ∧ e.2.placeId? = e.1.2 ∧ e.2.Distinct

/-- The last snapshot issued to a listener is of what it listens to now. -/
def Current (s : Screen) : Prop :=
  ∀ q ∈ openSubs s.bloc.listeners, ∀ x, s.bloc.listeners[q.1]? = some x →
    yielded q (s.log ++ s.feed) = some (x.read s.docs q.2)

/-! ## What is shown -/

/-- The places and the contributors shown are those of the load: each place
of its subcollection and each contributor of its list, as they are in the
database, once. -/
structure ShowsExactly (s : Screen) (l : Load) : Prop where
  places : ∃ places, (l.collection s.docs).map (fun e => Place.fromSnapshot (some e.2)) =
    places.map .ok ∧ s.bloc.savedPlaces.Perm places
  contributors : ∃ placeList users,
    PlaceList.fromSnapshot l.placeListId (s.docs.lookup (.placeLists l.placeListId)) =
      .ok placeList ∧
    (placeList.contributorIds.getD []).Nodup ∧
    (placeList.contributorIds.getD []).map
      (fun userId => User.fromSnapshot userId (s.docs.lookup (.users userId))) =
      users.map .ok ∧
    s.bloc.contributors.Perm users

/-- Loads are handled one by one, each to its end. -/
def handledInTurn (s : Screen) : Happening → Bool
  | .load _ _ => s.bloc.waiting.isEmpty
  | _ => true

/-- The snapshot can be read, and names no contributor twice. -/
def readable (x : PlacesListener) (snap : PlacesSnapshot) : Bool :=
  match x, snap with
  | .placeList load, .doc d =>
    match PlaceList.fromSnapshot load.value.placeListId d with
    | .ok placeList => (placeList.contributorIds.getD []).Nodup
    | .error _ => false
  | .contributor _ userId, .doc d => (User.fromSnapshot userId d).isOk
  | .places _ _, .place _ d => (Place.fromSnapshot d).isOk
  | _, _ => true

/-- The promise of a run that shows its lists: a listener that shows is
given one snapshot, while its load is the last one, and one that can be
read. -/
def keepsShown (s : Screen) (e : Happening) : Bool :=
  handledInTurn s e &&
    match e with
    | .load placeList _ => placeList.placeListId.isSome
    | .deliver q =>
      match take? q s.feed, s.bloc.listeners[q.1]? with
      | some (snap, _), some x =>
        !x.watched || (x.load.load + 1 = s.bloc.loads.length && q ∉ s.log.map Prod.fst &&
          readable x snap)
      | _, _ => true
    | _ => true

end Screen

end GottaGo
