/-
GottaGo.Repository.Totals — `PlaceListRepository.getSavedPlacesTotalCount` and
`getVisitedPlacesTotalCount`: the numbers on the profile page.

Both ask for the number of documents in one subcollection of each list of the
user, one list after the other, and add the numbers up at the end. A count
query has an answer of its own kind, so these two have a request type of
their own: `CountReq` names a subcollection, and `countServer` answers from
the documents (`placeIds`).
-/
import GottaGo.Repository.ByName
import GottaGo.Visits.Moves

namespace GottaGo

open GottaGo.Async GottaGo.Firestore

/-- The id of a document of subcollection `slot visited` of list `l`. -/
def Path.placeIn? (visited : Bool) (l : String) : Path → Option String
  | .places l' p => if visited = false ∧ l' = l then some p else none
  | .visitedPlaces l' p => if visited = true ∧ l' = l then some p else none
  | _ => none

/-- The ids of the documents in that subcollection. -/
def placeIds (s : Store Path) (visited : Bool) (l : String) : Finset String :=
  s.matching (Path.placeIn? visited l) fun _ => true

theorem Path.placeIn?_eq_some {visited : Bool} {l id : String} {q : Path} :
    q.placeIn? visited l = some id ↔ q = slot visited l id := by
  cases visited <;> cases q <;> simp [placeIn?, slot]

theorem mem_placeIds {s : Store Path} {visited : Bool} {l id : String} :
    id ∈ placeIds s visited l ↔ (s.get (slot visited l id)).isSome := by
  simp only [placeIds, Store.mem_matching, Path.placeIn?_eq_some, and_true]
  constructor
  · rintro ⟨q, d, rfl, hd⟩
    simp [hd]
  · intro h
    obtain ⟨d, hd⟩ := Option.isSome_iff_exists.mp h
    exact ⟨_, d, rfl, hd⟩

/-- `collection('place_lists').doc(placeListId).collection(…).count().get()`. -/
inductive CountReq where
  | count (visited : Bool) (placeListId : String)

abbrev Counting (α : Type) := Prog CountReq (fun _ => Nat) Err α

/-- A count query is answered from the documents. -/
def countServer (q : CountReq) (s : Store Path) : Except Err Nat × Store Path :=
  match q with
  | .count visited placeListId => (.ok (placeIds s visited placeListId).card, s)

namespace PlaceListRepository

/-- The two functions, but for the subcollection. -/
def totalCount (visited : Bool) (user : User) : Counting Nat :=
  Prog.tryCatch
    (match user.placeListIds with
      | none => .raise .typeError
      | some placeListIds => (readCounts placeListIds).bind fun placeCounts =>
        .ret (placeCounts.foldl (fun count snapshot => count + snapshot) 0))
    fun e => if e = .firebase then .raise .exception else .raise e
where
  /-- The loop over the ids. -/
  readCounts : List String → Counting (List Nat)
    | [] => .ret []
    | placeListId :: placeListIds =>
      (Prog.await (A := fun _ => Nat) (.count visited placeListId)).bind fun snapshot =>
        (readCounts placeListIds).bind fun placeCounts => .ret (snapshot :: placeCounts)

def getSavedPlacesTotalCount (user : User) : Counting Nat := totalCount false user

def getVisitedPlacesTotalCount (user : User) : Counting Nat := totalCount true user

theorem eval_readCounts (visited : Bool) (placeListIds : List String) (s : Store Path) :
    Prog.eval countServer (totalCount.readCounts visited placeListIds) s =
      (.ok (placeListIds.map fun l => (placeIds s visited l).card), s) := by
  induction placeListIds with
  | nil => rfl
  | cons l ls ih => simp [totalCount.readCounts, ih, countServer]

end PlaceListRepository

/-- The places of all the lists, each list as often as it is given. -/
def placesTotal (s : Store Path) (visited : Bool) (placeListIds : List String) : Nat :=
  (placeListIds.map fun l => (placeIds s visited l).card).foldl (· + ·) 0

/-- The total is a sum of counts. -/
theorem PlaceListRepository.eval_totalCount {visited : Bool} {user : User}
    {placeListIds : List String} (h : user.placeListIds = some placeListIds) (s : Store Path) :
    Prog.eval countServer (totalCount visited user) s =
      (.ok (placesTotal s visited placeListIds), s) := by
  simp [totalCount, placesTotal, h, eval_readCounts]

/-- Two sums that differ in one summand, by `k`, differ by `k` as often as
that summand occurs. -/
theorem foldl_add_count {f g : String → Nat} {l : String} {k : Nat} (hl : f l + k = g l)
    (hne : ∀ m, m ≠ l → f m = g m) (ls : List String) (a b : Nat) :
    (ls.map f).foldl (· + ·) a + k * ls.count l + b = (ls.map g).foldl (· + ·) b + a := by
  induction ls generalizing a b with
  | nil => simp; omega
  | cons m ls ih =>
    have hstep := ih (a + f m) (b + g m)
    simp only [List.map_cons, List.foldl_cons]
    by_cases hm : m = l
    · subst hm
      rw [List.count_cons_self, Nat.mul_succ]
      omega
    · have hm' := hne m hm
      rw [List.count_cons_of_ne hm]
      omega

end GottaGo
