/-
GottaGo.Repository.ByName — `PlaceListRepository.addPlaceToListByName`.

The function awaits a query for the user's lists of a name and sets one
document below each list found. It does not await these writes, so they are
committed in any order, each when it is. A query is answered from the
documents of that moment: `Store.matching`.
-/
import GottaGo.Repository.PlaceLists
import Mathlib.Data.Finset.Union

namespace GottaGo

open GottaGo.Firestore

namespace Firestore.Store

variable {P : Type} [DecidableEq P]

/-- The ids of the documents of a collection that satisfy `f`; `id?` gives
the id of a document of the collection. -/
def matching (s : Store P) (id? : P → Option String) (f : Doc → Bool) : Finset String :=
  (s.keys.filter fun p => (s.get p).any f).biUnion fun p => (id? p).toList.toFinset

theorem mem_matching {s : Store P} {id? : P → Option String} {f : Doc → Bool} {id : String} :
    id ∈ s.matching id? f ↔ ∃ p d, id? p = some id ∧ s.get p = some d ∧ f d = true := by
  simp only [matching, Finset.mem_biUnion, Finset.mem_filter, List.mem_toFinset,
    Option.mem_toList, Option.any_eq_true]
  constructor
  · rintro ⟨p, ⟨-, d, hget, hf⟩, hid⟩
    exact ⟨p, d, hid, hget, hf⟩
  · rintro ⟨p, d, hid, hget, hf⟩
    have hkey : p ∈ s.keys := Finmap.mem_keys.mpr (Finmap.mem_of_lookup_eq_some hget)
    exact ⟨p, ⟨hkey, d, hget, hf⟩, hid⟩

end Firestore.Store

/-- The id of a list. -/
def Path.placeList? : Path → Option String
  | .placeLists placeListId => some placeListId
  | _ => none

namespace PlaceListRepository

/-- `.where('name', isEqualTo: placeListName).where('listOwnerId', isEqualTo: userId)`. -/
def named (placeListName userId : String) (d : Doc) : Bool :=
  d.get? "name" = some (.str placeListName) && d.get? "listOwnerId" = some (.str userId)

/-- The lists that the query finds. -/
def listsNamed (s : Store Path) (placeListName userId : String) : Finset String :=
  s.matching Path.placeList? (named placeListName userId)

/-- The write below one of them. A place without an id gets the new document
`docId`. -/
def placeWrite (place : Place) (placeListId docId : String) : Write Path :=
  .set (.places placeListId (place.placeId.getD docId)) (Doc.ofList place.toDocument)

theorem mem_listsNamed {s : Store Path} {placeListName userId l : String} :
    l ∈ listsNamed s placeListName userId ↔
      ∃ d, s.get (.placeLists l) = some d ∧ named placeListName userId d = true := by
  rw [listsNamed, Store.mem_matching]
  constructor
  · rintro ⟨p, d, hid, h⟩
    cases p <;> cases hid
    exact ⟨d, h⟩
  · rintro ⟨d, h⟩
    exact ⟨_, d, rfl, h⟩

end PlaceListRepository

end GottaGo
