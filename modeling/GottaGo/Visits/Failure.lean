/-
GottaGo.Visits.Failure — a visit change one of whose writes fails.

`stop` gives the documents that a batch of moves leaves behind when its
write number `k` fails: the elements before it have moved, and the
element it falls in has been deleted from one subcollection and not
written to the other if the failing write is its second. There is no
handler that writes it back.

`visitChange_keeps_iff` says for which batches and failures every place
survives, and that nothing else is ever touched. `visitChange_loses` is
the smallest loss: one place, the second write.
-/
import GottaGo.Model.DocumentsTheorems
import GottaGo.Visits.Moves

namespace GottaGo

open GottaGo.Async GottaGo.Firestore

/-! ## The calls -/

/-- The calls that change which places are visited. -/
inductive VisitChange where
  | markPlaceVisited (place : Place)
  | restoreVisitedPlace (place : Place)
  | markVisitedPlaces (selectedPlaces : List Place)

namespace VisitChange

def call (placeList : PlaceList) : VisitChange → App Unit
  | .markPlaceVisited place => PlaceListRepository.markPlaceVisited place placeList
  | .restoreVisitedPlace place => PlaceListRepository.restoreVisitedPlace place placeList
  | .markVisitedPlaces selectedPlaces =>
    EditPlacesBloc.markVisitedPlaces selectedPlaces placeList

/-- The places selected. -/
def places : VisitChange → List Place
  | .markPlaceVisited place => [place]
  | .restoreVisitedPlace place => [place]
  | .markVisitedPlaces selectedPlaces => selectedPlaces

/-- The subcollection the places are moved from. -/
def source : VisitChange → Bool
  | .restoreVisitedPlace _ => true
  | _ => false

end VisitChange

/-! ## What is left when a write fails -/

/-- The id of a place that has one. -/
def Place.docId (place : Place) : String := place.placeId.getD ""

/-- The documents after place `place` has moved from subcollection `d`. -/
def moved (d : Bool) (l : String) (place : Place) (s : Store Path) : Store Path :=
  (s.del (slot d l place.docId)).put (slot (!d) l place.docId)
    (Doc.ofList place.toDocument)

/-- The documents after a batch of moves whose write number `k` fails. -/
def stop (d : Bool) (l : String) : List Place → Nat → Store Path → Store Path
  | [], _, s => s
  | _ :: _, 0, s => s
  | place :: _, 1, s => s.del (slot d l place.docId)
  | place :: places, k + 2, s => stop d l places k (moved d l place s)

section Run

variable {d : Bool} {l : String} {placeList : PlaceList}

/-- One move, when write number `k` fails and `n` have gone before. -/
theorem movePlace_failAt {place : Place} (hl : placeList.placeListId = some l)
    (hp : place.placeId.isSome) (k n : Nat) (st : AppState) :
    ∃ r st', Prog.eval (failAt k)
        (PlaceListRepository.movePlace (slot d) (slot (!d)) place placeList) (n, st) = (r, st') ∧
      ((n = k ∧ r = .error .exception ∧ st'.2.store = st.store) ∨
        (n + 1 = k ∧ r = .error .exception ∧
          st'.2.store = st.store.del (slot d l place.docId)) ∨
        (n ≠ k ∧ n + 1 ≠ k ∧ r = .ok () ∧ st'.1 = n + 2 ∧
          st'.2.store = moved d l place st.store)) := by
  obtain ⟨p, hp⟩ := Option.isSome_iff_exists.mp hp
  have hid : place.docId = p := by rw [Place.docId, hp, Option.getD_some]
  refine ⟨_, _, rfl, ?_⟩
  rw [movePlace_eq hp hl, hid]
  by_cases h0 : n = k
  · left
    subst h0
    simp [rethrowing, Fire.onFirebaseException, Fire.delete, Fire.set, failAt, serve]
  · by_cases h1 : n + 1 = k
    · right; left
      subst h1
      simp [rethrowing, Fire.onFirebaseException, Fire.delete, Fire.set, failAt, serve]
    · right; right
      simp [rethrowing, Fire.onFirebaseException, Fire.delete, Fire.set, failAt, serve,
        h0, h1, moved, hid]

/-- A batch of moves leaves what `stop` says. -/
theorem moveAll_failAt (hl : placeList.placeListId = some l) (places : List Place)
    (hp : ∀ place ∈ places, place.placeId.isSome) (k n : Nat) (st : AppState) :
    (Prog.eval (failAt (n + k)) (places.forM fun place =>
        PlaceListRepository.movePlace (slot d) (slot (!d)) place placeList)
      (n, st)).2.2.store = stop d l places k st.store := by
  induction places generalizing n k st with
  | nil => rfl
  | cons place places ih =>
    rw [List.forall_mem_cons] at hp
    obtain ⟨r, ⟨n', st'⟩, heval, hcases⟩ :=
      movePlace_failAt (d := d) hl hp.1 (n + k) n st
    rw [List.forM, Prog.bind_eq, Prog.eval_bind, heval]
    rcases k with _ | _ | k
    · obtain ⟨-, rfl, hst⟩ | ⟨hn, -, -⟩ | ⟨hn, -⟩ := hcases
      · exact hst
      · omega
      · omega
    · obtain ⟨hn, -, -⟩ | ⟨-, rfl, hst⟩ | ⟨-, hn, -⟩ := hcases
      · omega
      · exact hst
      · omega
    · obtain ⟨hn, -, -⟩ | ⟨hn, -, -⟩ | ⟨-, -, rfl, hn, hst⟩ := hcases
      · omega
      · omega
      · dsimp only at hn hst
        subst hn
        have hk : n + (k + 2) = n + 2 + k := by omega
        dsimp only
        rw [hk, ih hp.2, hst, stop]

end Run

theorem VisitChange.call_failAt {placeList : PlaceList} {l : String}
    (hl : placeList.placeListId = some l) (change : VisitChange)
    (hp : ∀ place ∈ change.places, place.placeId.isSome) (k : Nat) (st : AppState) :
    (Prog.eval (failAt k) (change.call placeList) (0, st)).2.2.store =
      stop change.source l change.places k st.store := by
  have hall : ∀ d places, (∀ place ∈ places, place.placeId.isSome) →
      (Prog.eval (failAt k) (places.forM fun place =>
          PlaceListRepository.movePlace (slot d) (slot (!d)) place placeList)
        (0, st)).2.2.store = stop d l places k st.store := by
    intro d places hps
    have h := moveAll_failAt (d := d) hl places hps k 0 st
    rwa [Nat.zero_add] at h
  cases change with
  | markPlaceVisited place =>
    have h := hall false [place] hp
    rwa [Prog.eval_forM_singleton] at h
  | restoreVisitedPlace place =>
    have h := hall true [place] hp
    rwa [Prog.eval_forM_singleton] at h
  | markVisitedPlaces places => exact hall false places hp

/-! ## What survives -/

/-- The last element with id `p` that has moved when write `k` fails. -/
def lastMoved (places : List Place) (k : Nat) (p : String) : Option Place :=
  ((places.take (k / 2)).filter fun place => place.docId = p).getLast?

/-- The elements that have been deleted from their subcollection when
write `k` fails: those that have moved, and the one that has not been
written back if `k` is its second write. -/
def deleted (places : List Place) (k : Nat) : List Place := places.take ((k + 1) / 2)

section Stop

variable {d : Bool} {l : String}

theorem lastMoved_cons (place : Place) (places : List Place) (k : Nat) (p : String) :
    lastMoved (place :: places) (k + 2) p =
      (lastMoved places k p).or (if place.docId = p then some place else none) := by
  have hk : (k + 2) / 2 = k / 2 + 1 := by omega
  rw [lastMoved, hk, List.take_succ_cons, List.filter_cons, lastMoved]
  by_cases h : place.docId = p
  · simp [h, List.getLast?_cons, Option.or_some]
  · simp [h]

theorem deleted_cons (place : Place) (places : List Place) (k : Nat) :
    deleted (place :: places) (k + 2) = place :: deleted places k := by
  have hk : (k + 2 + 1) / 2 = (k + 1) / 2 + 1 := by omega
  rw [deleted, hk, List.take_succ_cons, deleted]

/-- The documents a batch does not name stay as they are. -/
theorem stop_get_frame {q : Path} (places : List Place) (k : Nat) (s : Store Path)
    (h : ∀ place ∈ places, ∀ e, q ≠ slot e l place.docId) :
    (stop d l places k s).get q = s.get q := by
  induction places, k, s using stop.induct (d := d) (l := l) with
  | case1 k s => rfl
  | case2 place places s => rfl
  | case3 place places s =>
    rw [stop, Store.get_del_of_ne s (h place List.mem_cons_self d)]
  | case4 place places k s ih =>
    rw [List.forall_mem_cons] at h
    rw [stop, ih h.2, moved, Store.get_put_of_ne _ _ (h.1 (!d)),
      Store.get_del_of_ne s (h.1 d)]

/-- A place is gone from its subcollection once it has been deleted. -/
theorem stop_get_source (places : List Place) (k : Nat) (s : Store Path) (p : String) :
    (stop d l places k s).get (slot d l p) =
      if p ∈ (deleted places k).map Place.docId then none else s.get (slot d l p) := by
  induction places, k, s using stop.induct (d := d) (l := l) with
  | case1 k s => simp [stop, deleted]
  | case2 place places s => simp [stop, deleted]
  | case3 place places s =>
    by_cases h : p = place.docId
    · subst h
      simp [stop, deleted]
    · have hne : slot d l p ≠ slot d l place.docId := fun he => h (slot_inj he).2
      rw [stop, Store.get_del_of_ne s hne]
      simp [deleted, h]
  | case4 place places k s ih =>
    have hmoved : (moved d l place s).get (slot d l p) =
        if p = place.docId then none else s.get (slot d l p) := by
      have hne : slot d l p ≠ slot (!d) l place.docId := by
        intro he
        exact absurd (slot_inj he).1 (by simp)
      rw [moved, Store.get_put_of_ne _ _ hne, Store.get_del]
      by_cases h : p = place.docId
      · rw [if_pos h, if_pos (by rw [h])]
      · rw [if_neg h, if_neg fun he => h (slot_inj he).2]
    rw [stop, ih, hmoved, deleted_cons]
    by_cases h : p = place.docId <;> simp [h]

/-- The other subcollection has the last element that has moved there. -/
theorem stop_get_target (places : List Place) (k : Nat) (s : Store Path) (p : String) :
    (stop d l places k s).get (slot (!d) l p) =
      match lastMoved places k p with
      | some place => some (Doc.ofList place.toDocument)
      | none => s.get (slot (!d) l p) := by
  induction places, k, s using stop.induct (d := d) (l := l) with
  | case1 k s => simp [stop, lastMoved]
  | case2 place places s => simp [stop, lastMoved]
  | case3 place places s =>
    have hne : slot (!d) l p ≠ slot d l place.docId := by
      intro he
      exact absurd (slot_inj he).1 (by simp)
    rw [stop, Store.get_del_of_ne s hne]
    simp [lastMoved]
  | case4 place places k s ih =>
    have hmoved : (moved d l place s).get (slot (!d) l p) =
        if place.docId = p then some (Doc.ofList place.toDocument)
          else s.get (slot (!d) l p) := by
      rw [moved, Store.get_put]
      by_cases h : place.docId = p
      · rw [if_pos h, if_pos (by rw [h])]
      · have hd : slot (!d) l p ≠ slot d l place.docId := by
          intro he
          exact absurd (slot_inj he).1 (by simp)
        rw [if_neg h, if_neg fun he => h (slot_inj he).2.symm, Store.get_del_of_ne s hd]
    rw [stop, ih, hmoved, lastMoved_cons]
    cases lastMoved places k p with
    | some q => rfl
    | none => by_cases h : place.docId = p <;> simp [h]

end Stop

/-- Document `q` holds place `place`. -/
def Holds (s : Store Path) (q : Path) (place : Place) : Prop :=
  Place.fromSnapshot (s.get q) = .ok place

/-- Place `place` is in one of the two subcollections of list `l`. -/
def Stored (s : Store Path) (l : String) (place : Place) : Prop :=
  ∃ p, place.placeId = some p ∧
    (Holds s (.places l p) place ∨ Holds s (.visitedPlaces l p) place)

/-- When write number `k` of a batch of moves from subcollection `d` fails,
`place` survives: the last element with its id that has moved is the
place itself; or none has moved, and if one has been deleted then the
other subcollection had the place all along. -/
def Survives (d : Bool) (s : Store Path) (l : String) (places : List Place) (k : Nat)
    (place : Place) : Prop :=
  match lastMoved places k place.docId with
  | some q => q = place
  | none => place.docId ∈ (deleted places k).map Place.docId →
      Holds s (slot (!d) l place.docId) place

theorem stored_iff {s : Store Path} {l : String} {place : Place} (d : Bool)
    (hp : place.placeId.isSome) :
    Stored s l place ↔
      Holds s (slot d l place.docId) place ∨ Holds s (slot (!d) l place.docId) place := by
  obtain ⟨p, hp⟩ := Option.isSome_iff_exists.mp hp
  have hid : place.docId = p := by rw [Place.docId, hp, Option.getD_some]
  rw [hid]
  constructor
  · intro hx
    obtain ⟨q, hq, h⟩ := hx
    rw [hp] at hq
    cases hq
    cases d with
    | false => exact h
    | true => exact h.symm
  · intro h
    cases d with
    | false => exact ⟨p, hp, h⟩
    | true => exact ⟨p, hp, h.symm⟩

theorem not_holds_of_none {s : Store Path} {q : Path} {place : Place}
    (h : s.get q = none) : ¬ Holds s q place := by
  intro hh
  rw [Holds, h] at hh
  cases hh

/-- A place that was stored is still stored just when it survives. -/
theorem stored_stop_iff {d : Bool} {s : Store Path} {l : String} {places : List Place}
    (k : Nat) {place : Place} (h : Stored s l place) :
    Stored (stop d l places k s) l place ↔ Survives d s l places k place := by
  have hp : place.placeId.isSome := by
    obtain ⟨p, hp, -⟩ := h
    rw [hp, Option.isSome_some]
  have htarget := stop_get_target (d := d) (l := l) places k s place.docId
  have hsource := stop_get_source (d := d) (l := l) places k s place.docId
  rw [stored_iff d hp, Survives]
  cases hlast : lastMoved places k place.docId with
  | some q =>
    rw [hlast] at htarget
    -- what has moved has been deleted before
    have hdel : place.docId ∈ (deleted places k).map Place.docId := by
      have hq := List.mem_filter.mp (List.mem_of_getLast? hlast)
      have hle : places.take (k / 2) ⊆ places.take ((k + 1) / 2) :=
        (List.take_prefix_take_left (by omega)).subset
      exact List.mem_map.mpr ⟨q, hle hq.1, by simpa using hq.2⟩
    rw [if_pos hdel] at hsource
    have hnot : ¬ Holds (stop d l places k s) (slot d l place.docId) place :=
      not_holds_of_none hsource
    have hround : Holds (stop d l places k s) (slot (!d) l place.docId) place ↔
        q = place := by
      rw [Holds, htarget, Place.fromSnapshot_toDocument, Except.ok.injEq]
    rw [hround]
    exact or_iff_right hnot
  | none =>
    rw [hlast] at htarget
    have hkeep : Holds (stop d l places k s) (slot (!d) l place.docId) place ↔
        Holds s (slot (!d) l place.docId) place := by
      rw [Holds, htarget, Holds]
    rw [hkeep]
    by_cases hdel : place.docId ∈ (deleted places k).map Place.docId
    · rw [if_pos hdel] at hsource
      have hnot : ¬ Holds (stop d l places k s) (slot d l place.docId) place :=
        not_holds_of_none hsource
      constructor
      · intro hor _
        exact hor.resolve_left hnot
      · intro himp
        exact .inr (himp hdel)
    · rw [if_neg hdel] at hsource
      have hstay : Holds (stop d l places k s) (slot d l place.docId) place ↔
          Holds s (slot d l place.docId) place := by
        rw [Holds, hsource, Holds]
      rw [hstay]
      exact ⟨fun _ hmem => absurd hmem hdel, fun _ => (stored_iff d hp).mp h⟩

/-- When write number `k` of a visit change fails, every selected place is
still in one of the two subcollections and every other document is as it
was, just when every selected place survives. -/
theorem visitChange_keeps_iff {placeList : PlaceList} {l : String}
    (hl : placeList.placeListId = some l) (change : VisitChange) (k : Nat)
    (st : AppState) (hstored : ∀ place ∈ change.places, Stored st.store l place) :
    ((∀ place ∈ change.places, Stored
          (Prog.eval (failAt k) (change.call placeList) (0, st)).2.2.store l place) ∧
        ∀ q, (∀ place ∈ change.places, ∀ e, q ≠ slot e l place.docId) →
          (Prog.eval (failAt k) (change.call placeList) (0, st)).2.2.store.get q =
            st.store.get q) ↔
      ∀ place ∈ change.places,
        Survives change.source st.store l change.places k place := by
  have hids : ∀ place ∈ change.places, place.placeId.isSome := by
    intro place hplace
    obtain ⟨p, hp, -⟩ := hstored place hplace
    rw [hp, Option.isSome_some]
  rw [change.call_failAt hl hids k st]
  constructor
  · intro hx place hplace
    obtain ⟨hall, -⟩ := hx
    exact (stored_stop_iff k (hstored place hplace)).mp (hall place hplace)
  · intro hall
    refine ⟨fun place hplace => ?_, fun q hq => stop_get_frame _ k st.store hq⟩
    exact (stored_stop_iff k (hstored place hplace)).mpr (hall place hplace)

theorem stored_onePlace : Stored (onePlace colosseum "rome" "p1") "rome" colosseum := by
  refine ⟨"p1", rfl, .inl ?_⟩
  rw [Holds, onePlace, Store.get_ofList_cons, if_pos rfl, Place.fromSnapshot_toDocument]

/-- The first write of a mark fails: nothing is lost. -/
theorem visitChange_keeps_first :
    Stored (Prog.eval (failAt 0) ((VisitChange.markPlaceVisited colosseum).call rome)
      (0, { store := onePlace colosseum "rome" "p1" })).2.2.store "rome" colosseum := by
  have hid : rome.placeListId = some "rome" := rfl
  have hiff := visitChange_keeps_iff hid (.markPlaceVisited colosseum) 0
    { store := onePlace colosseum "rome" "p1" }
    (List.forall_mem_singleton.mpr stored_onePlace)
  refine (hiff.mpr ?_).1 colosseum (List.mem_singleton_self _)
  refine List.forall_mem_singleton.mpr fun hdel => ?_
  simp [VisitChange.places, deleted] at hdel

/-- The second write of a mark fails: the place is in neither
subcollection. -/
theorem visitChange_loses :
    ¬ ∀ (placeList : PlaceList) (l : String) (change : VisitChange) (k : Nat)
        (st : AppState), placeList.placeListId = some l →
      (∀ place ∈ change.places, Stored st.store l place) →
      (∀ place ∈ change.places, Stored
          (Prog.eval (failAt k) (change.call placeList) (0, st)).2.2.store l place) ∧
        ∀ q, (∀ place ∈ change.places, ∀ e, q ≠ slot e l place.docId) →
          (Prog.eval (failAt k) (change.call placeList) (0, st)).2.2.store.get q =
            st.store.get q := by
  intro h
  have hkept := (h rome "rome" (.markPlaceVisited colosseum) 1
    { store := onePlace colosseum "rome" "p1" } rfl
    (List.forall_mem_singleton.mpr stored_onePlace)).1 colosseum (List.mem_singleton_self _)
  obtain ⟨p, hp, hplaces | hvisited⟩ := hkept
  · cases hp
    exact not_holds_of_none (by decide) hplaces
  · cases hp
    exact not_holds_of_none (by decide) hvisited

end GottaGo
