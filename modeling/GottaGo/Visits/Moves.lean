/-
GottaGo.Visits.Moves — a place of a list under concurrent visit changes.

`markPlaceVisited` deletes a place from `places` and then writes it to
`visited_places`; `restoreVisitedPlace` does the same the other way. Seen
through `slots`, a call is a move between two slots
(`Async/Shuttle.lean`), so a place is never lost, and it is in exactly
one of the two subcollections unless a mark and a restore were both
between their two writes at some moment. `visits_duplicate` is such a
pair of calls, after which the place is in both.
-/
import GottaGo.Async.Shuttle
import GottaGo.Bloc.Handlers

namespace GottaGo

open GottaGo.Async GottaGo.Async.Pool GottaGo.Firestore

/-- The two subcollections of a list. -/
def slot : Bool → String → String → Path
  | false => .places
  | true => .visitedPlaces

/-- Which subcollections of list `l` have a document for place `p`. -/
def slots (s : Store Path) (l p : String) : Shuttle.Slots :=
  fun d => (s.get (slot d l p)).isSome

/-- Place `p` is in exactly one subcollection of list `l`. -/
def InExactlyOne (s : Store Path) (l p : String) : Prop :=
  (s.get (.visitedPlaces l p)).isSome ↔ ¬ (s.get (.places l p)).isSome

instance (s : Store Path) (l p : String) : Decidable (InExactlyOne s l p) :=
  inferInstanceAs (Decidable (_ ↔ _))

/-- The visit changes of place `p` of list `l`, by any client. -/
inductive VisitStart (l p : String) : AppState → AppState → App Unit → Prop
  | mark (st : AppState) (place : Place) (placeList : PlaceList) :
      place.placeId = some p → placeList.placeListId = some l →
      VisitStart l p st st (PlaceListRepository.markPlaceVisited place placeList)
  | restore (st : AppState) (place : Place) (placeList : PlaceList) :
      place.placeId = some p → placeList.placeListId = some l →
      VisitStart l p st st (PlaceListRepository.restoreVisitedPlace place placeList)

/-- The document that call `t` is about to write whole. -/
def fills? (t : App Unit) : Option Path :=
  match t.next? with
  | some (.write (.set q _)) => some q
  | _ => none

/-- A mark and a restore of place `p` are both between their two writes. -/
def Crossing (l p : String) (c : Pool AppState (App Unit)) : Prop :=
  (∃ t ∈ c.threads, fills? t = some (.visitedPlaces l p)) ∧
    ∃ t ∈ c.threads, fills? t = some (.places l p)

instance (l p : String) (c : Pool AppState (App Unit)) : Decidable (Crossing l p c) :=
  inferInstanceAs (Decidable (_ ∧ _))

/-! ## The calls -/

/-- A move with both ids known is a delete and a set. -/
theorem movePlace_eq {src dst : String → String → Path} {place : Place}
    {placeList : PlaceList} {l p : String} (hp : place.placeId = some p)
    (hl : placeList.placeListId = some l) :
    PlaceListRepository.movePlace src dst place placeList =
      rethrowing (do
        Fire.delete (src l p)
        Fire.set (dst l p) place.toDocument) := by
  unfold PlaceListRepository.movePlace PlaceListRepository.movePlace.listId
  rw [hp, hl]
  rfl

/-- Where a call that moves from subcollection `d` stands. -/
inductive VisitPoint where
  | idle (d : Bool) (place : Place)
  | carrying (d : Bool) (place : Place)
  | ended

namespace VisitPoint

/-- What is left of the call. -/
def task (l p : String) : VisitPoint → App Unit
  | .idle d place => rethrowing (do
      Fire.delete (slot d l p)
      Fire.set (slot (!d) l p) place.toDocument)
  | .carrying d place => rethrowing (Fire.set (slot (!d) l p) place.toDocument)
  | .ended => .ret ()

/-- The call as a move between slots. -/
def stage : VisitPoint → Shuttle.Point
  | .idle d _ => .idle d
  | .carrying d _ => .carrying d
  | .ended => .ended

/-- A call that carries is about to write to the other subcollection. -/
theorem fills?_of_carrying {l p : String} {v : VisitPoint} {d : Bool}
    (h : v.stage = .carrying d) : fills? (v.task l p) = some (slot (!d) l p) := by
  cases v with
  | carrying e place =>
    cases h
    rfl
  | _ => cases h

theorem not_ended {l p : String} {v : VisitPoint} {d : Bool}
    (h : v.stage = .carrying d) : ¬ (v.task l p).Ended := by
  cases v with
  | carrying e place => exact id
  | _ => cases h

end VisitPoint

theorem VisitStart.point {l p : String} {st st' : AppState} {t : App Unit}
    (h : VisitStart l p st st' t) :
    ∃ v : VisitPoint, t = v.task l p ∧ st' = st ∧ ∃ d place, v = .idle d place := by
  cases h with
  | mark place placeList hp hl =>
    exact ⟨.idle false place, movePlace_eq hp hl, rfl, false, place, rfl⟩
  | restore place placeList hp hl =>
    exact ⟨.idle true place, movePlace_eq hp hl, rfl, true, place, rfl⟩

theorem slot_ne (d : Bool) (l p : String) : slot (!d) l p ≠ slot d l p := by
  cases d <;> exact Path.noConfusion

theorem slot_inj {d e : Bool} {l p q : String} (h : slot d l p = slot e l q) :
    d = e ∧ p = q := by
  cases d <;> cases e <;> cases h <;> exact ⟨rfl, rfl⟩

theorem slots_put (s : Store Path) (l p : String) (d : Bool) (doc : Doc) :
    slots (s.put (slot d l p) doc) l p = Function.update (slots s l p) d True := by
  funext e
  by_cases h : e = d
  · subst h
    simp [slots]
  · have hne : slot e l p ≠ slot d l p := fun he => h (slot_inj he).1
    rw [Function.update_of_ne h, slots, slots, Store.get_put_of_ne s doc hne]

theorem slots_del (s : Store Path) (l p : String) (d : Bool) :
    slots (s.del (slot d l p)) l p = Function.update (slots s l p) d False := by
  funext e
  by_cases h : e = d
  · subst h
    simp [slots]
  · have hne : slot e l p ≠ slot d l p := fun he => h (slot_inj he).1
    rw [Function.update_of_ne h, slots, slots, Store.get_del_of_ne s hne]

/-- The step of a call, and the same step between slots. -/
theorem VisitPoint.adv_of_step {l p : String} {st st' : AppState} {v : VisitPoint}
    {t' : App Unit} (h : Prog.Step Served st (v.task l p) st' t') :
    ∃ v' : VisitPoint, t' = v'.task l p ∧
      Shuttle.Adv (slots st.store l p) v.stage (slots st'.store l p) v'.stage := by
  cases v with
  | idle d place =>
    obtain ⟨r, hr, rfl⟩ := h
    obtain ⟨s', hs', rfl, rfl⟩ := served_write.mp hr
    cases hs'
    refine ⟨.carrying d place, rfl, ?_⟩
    rw [State.commit_store, slots_del]
    exact .empty _ d
  | carrying d place =>
    obtain ⟨r, hr, rfl⟩ := h
    obtain ⟨s', hs', rfl, rfl⟩ := served_write.mp hr
    cases hs'
    refine ⟨.ended, rfl, ?_⟩
    rw [State.commit_store, slots_put]
    exact .fill _ d
  | ended => exact h.elim

/-! ## Runs -/

/-- A pool of calls as moves between slots. -/
def shuttle (l p : String) (c : Pool AppState VisitPoint) :
    Pool Shuttle.Slots Shuttle.Point :=
  ⟨slots c.state.store l p, c.threads.map VisitPoint.stage⟩

/-- A run of visit changes is a run of moves, and keeps as one the promise
it keeps as the other. -/
theorem visits_simulate {l p : String} {ok : Pool AppState (App Unit) → Prop}
    (okA : Pool Shuttle.Slots Shuttle.Point → Prop) {s : Store Path}
    {c : Pool AppState (App Unit)}
    (hok : ∀ st vs, ok ⟨st, vs.map (VisitPoint.task l p)⟩ → okA (shuttle l p ⟨st, vs⟩))
    (hrun : Reach ok (VisitStart l p) (Prog.Step Served) ⟨{ store := s }, []⟩ c) :
    ∃ vs : List VisitPoint, c.threads = vs.map (VisitPoint.task l p) ∧
      Reach okA Shuttle.Start Shuttle.Adv ⟨slots s l p, []⟩ (shuttle l p ⟨c.state, vs⟩) := by
  have hrefines : ∃ vs : List VisitPoint, c.threads = vs.map (VisitPoint.task l p) ∧
      Reach (fun d => okA (shuttle l p d))
        (fun st st' v => st' = st ∧ ∃ d place, v = .idle d place)
        (fun st v st' v' =>
          Shuttle.Adv (slots st.store l p) v.stage (slots st'.store l p) v'.stage)
        ⟨{ store := s }, []⟩ ⟨c.state, vs⟩ := by
    refine Reach.refines (VisitPoint.task l p) ?_ ?_ hok hrun
    · intro st st' t ht
      exact ht.point
    · intro st v st' t' ht
      exact v.adv_of_step ht
  obtain ⟨vs, hvs, hpoints⟩ := hrefines
  refine ⟨vs, hvs, (Reach.simulates (shuttle l p) (J := fun _ => True) ?_ hpoints trivial).2⟩
  intro d d' _ hs hd'
  refine ⟨trivial, .inr ⟨?_, hd'⟩⟩
  cases hs with
  | start ts ht =>
    obtain ⟨rfl, d, place, rfl⟩ := ht
    exact .start _ ⟨rfl, d, rfl⟩
  | adv pre post ht =>
    simp only [shuttle, List.map_append, List.map_cons]
    exact .adv _ _ ht

theorem settled_of_quiet {l p : String} {c : Pool AppState (App Unit)}
    {vs : List VisitPoint} (hvs : c.threads = vs.map (VisitPoint.task l p))
    (hq : c.Quiet) : Shuttle.Settled (shuttle l p ⟨c.state, vs⟩) := by
  intro d hd
  obtain ⟨v, hv, hstage⟩ := List.mem_map.mp hd
  exact v.not_ended hstage (hq _ (hvs ▸ List.mem_map_of_mem hv))

/-- Once all visit changes have completed the place is in one of the two
subcollections, and in exactly one if at no moment a mark and a restore
were both between their two writes. -/
theorem visits_settle {s : Store Path} {l p : String} (h : InExactlyOne s l p) :
    (∀ c, Run (VisitStart l p) (Prog.Step Served) ⟨{ store := s }, []⟩ c → c.Quiet →
        (c.state.store.get (.places l p)).isSome ∨
          (c.state.store.get (.visitedPlaces l p)).isSome) ∧
      ∀ c, Reach (fun d => ¬ Crossing l p d) (VisitStart l p) (Prog.Step Served)
          ⟨{ store := s }, []⟩ c → c.Quiet → InExactlyOne c.state.store l p := by
  constructor
  · intro c hrun hq
    obtain ⟨vs, hvs, hsim⟩ := visits_simulate (fun _ => True)
      (fun _ _ _ => trivial) hrun
    have hfull : ∃ d, slots s l p d := by
      by_cases hp : (s.get (.places l p)).isSome
      · exact ⟨false, hp⟩
      · exact ⟨true, h.mpr hp⟩
    obtain ⟨d, hd⟩ := Shuttle.Run.held hfull hsim (settled_of_quiet hvs hq)
    cases d with
    | false => exact .inl hd
    | true => exact .inr hd
  · intro c hrun hq
    have hcross : ∀ (st : AppState) (vs : List VisitPoint),
        ¬ Crossing l p ⟨st, vs.map (VisitPoint.task l p)⟩ →
        ¬ Shuttle.Crossing (shuttle l p ⟨st, vs⟩) := by
      rintro st vs hnot ⟨hfalse, htrue⟩
      obtain ⟨v, hv, hvs⟩ := List.mem_map.mp hfalse
      obtain ⟨w, hw, hws⟩ := List.mem_map.mp htrue
      exact hnot ⟨⟨_, List.mem_map_of_mem hv, VisitPoint.fills?_of_carrying hvs⟩,
        ⟨_, List.mem_map_of_mem hw, VisitPoint.fills?_of_carrying hws⟩⟩
    obtain ⟨vs, hvs, hsim⟩ := visits_simulate (fun d => ¬ Shuttle.Crossing d)
      hcross hrun
    have hone : slots s l p true ↔ ¬ slots s l p false := h
    exact Shuttle.Reach.one hone hsim (settled_of_quiet hvs hq)

/-- The database of a list with one place, not visited. -/
def onePlace (place : Place) (l p : String) : Store Path :=
  .ofList [(.places l p, Doc.ofList place.toDocument)]

/-- A place with an id and a name. -/
def colosseum : Place where
  placeId := some "p1"
  name := some "Colosseum"

/-- A list with an id. -/
def rome : PlaceList :=
  (createListDialog "ada" "Rome").copyWith { placeListId := some "rome" }

theorem visits_settle_back_and_forth :
    ∃ c : Pool AppState (App Unit), InExactlyOne c.state.store "rome" "p1" ∧
      (c.state.store.get (.places "rome" "p1")).isSome := by
  have hplay : ∃ c : Pool AppState (App Unit),
      Reach (fun d => ¬ Crossing "rome" "p1" d) (VisitStart "rome" "p1")
        (Prog.Step Served) ⟨{ store := onePlace colosseum "rome" "p1" }, []⟩ c ∧
        c.Quiet ∧ (c.state.store.get (.places "rome" "p1")).isSome := by
    refine Reach.exists_play
      [PlaceListRepository.markPlaceVisited colosseum rome,
        PlaceListRepository.restoreVisitedPlace colosseum rome]
      [(0, {}), (0, {}), (1, {}), (1, {})]
      (fun d => decide (¬ Crossing "rome" "p1" d)) step_of_nextServed
      (fun _ hd => of_decide_eq_true hd) ?_ (by decide) (by decide)
    intro t ht
    simp only [List.mem_cons, List.not_mem_nil, or_false] at ht
    rcases ht with rfl | rfl
    · exact .mark _ _ _ rfl rfl
    · exact .restore _ _ _ rfl rfl
  obtain ⟨c, hrun, hq, hp⟩ := hplay
  exact ⟨c, (visits_settle (by decide)).2 c hrun hq, hp⟩

/-- A mark and a restore of one place, overlapping: it ends up in both
subcollections. -/
theorem visits_duplicate :
    ¬ ∀ (s : Store Path) (l p : String) (c : Pool AppState (App Unit)),
      InExactlyOne s l p →
      Run (VisitStart l p) (Prog.Step Served) ⟨{ store := s }, []⟩ c → c.Quiet →
      InExactlyOne c.state.store l p := by
  intro h
  let s := onePlace colosseum "rome" "p1"
  have hplay : ∃ c : Pool AppState (App Unit),
      Run (VisitStart "rome" "p1") (Prog.Step Served) ⟨{ store := s }, []⟩ c ∧
        c.Quiet ∧ ¬ InExactlyOne c.state.store "rome" "p1" := by
    refine Reach.exists_play
      [PlaceListRepository.markPlaceVisited colosseum rome,
        PlaceListRepository.restoreVisitedPlace colosseum rome]
      [(0, {}), (1, {}), (0, {}), (1, {})]
      (fun _ => true) step_of_nextServed (fun _ _ => trivial) ?_ (fun _ _ => trivial)
      (by decide)
    intro t ht
    simp only [List.mem_cons, List.not_mem_nil, or_false] at ht
    rcases ht with rfl | rfl
    · exact .mark _ _ _ rfl rfl
    · exact .restore _ _ _ rfl rfl
  obtain ⟨c, hrun, hq, hne⟩ := hplay
  exact hne (h s "rome" "p1" c (by decide) hrun hq)

end GottaGo
