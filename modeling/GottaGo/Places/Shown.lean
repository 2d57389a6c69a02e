/-
GottaGo.Places.Shown — the places and the contributors of the list that is
open.

Every snapshot of a list opens the listeners of its places and of its
contributors once more, every snapshot of a subcollection starts those of
its places anew, and whatever a listener of a place or a contributor gets
is appended to the lists that are shown. The listeners of earlier loads
append to the same lists. `places_shown`: the lists are exact, whenever
nothing is on its way, in the runs in which each listener that shows is
given one snapshot, while its load is the last, and one that can be read.
In `places_twice` a contributor joins after the list has come.
-/
import GottaGo.Places.Watching
import GottaGo.Visits.Moves

namespace GottaGo.Screen

open GottaGo.Async GottaGo.Firestore GottaGo.Rx GottaGo.PlaceListRepository

/-! ## Everything has been given -/

/-- The snapshot listener `q` is due. -/
def due (s : Screen) (q : Sub) : PlacesSnapshot :=
  match s.bloc.listeners[q.1]? with
  | some x => x.read s.docs q.2
  | none => .doc none

/-- The listeners from `base` on that show, once the list and the
subcollection have come. -/
def showing (base : Nat) (contributorIds placeIds : List String) : List Sub :=
  (base, none) :: (base + 2, none) :: placeIds.map (fun placeId => (base + 2, some placeId)) ++
    contributorIds.zipIdx.map fun u => (base + 3 + u.2, none)

variable {s : Screen} {older : List PlacesListener} {L : From Load} {b : Option Below}
  {contributorIds placeIds : List String}

theorem mem_showing {base : Nat} {q : Sub} :
    q ∈ showing base contributorIds placeIds ↔ q = (base, none) ∨ q = (base + 2, none) ∨
      (∃ placeId ∈ placeIds, q = (base + 2, some placeId)) ∨
      ∃ j < contributorIds.length, q = (base + 3 + j, none) := by
  simp only [showing, List.cons_append, List.mem_cons, List.mem_append, List.mem_map,
    Prod.exists, List.mem_zipIdx_iff_getElem?]
  constructor
  · intro h
    rcases h with h | h | ⟨placeId, hp, rfl⟩ | ⟨userId, j, hj, rfl⟩
    · exact .inl h
    · exact .inr (.inl h)
    · exact .inr (.inr (.inl ⟨placeId, hp, rfl⟩))
    · exact .inr (.inr (.inr ⟨j, (List.getElem?_eq_some_iff.mp hj).1, rfl⟩))
  · intro h
    rcases h with h | h | ⟨placeId, hp, rfl⟩ | ⟨j, hj, rfl⟩
    · exact .inl h
    · exact .inr (.inl h)
    · exact .inr (.inr (.inl ⟨placeId, hp, rfl⟩))
    · exact .inr (.inr (.inr ⟨contributorIds[j], j, List.getElem?_eq_getElem hj, rfl⟩))

theorem showing_nodup (base : Nat) (hids : placeIds.Nodup) :
    (showing base contributorIds placeIds).Nodup := by
  have hplaces : (placeIds.map fun placeId => ((base + 2, some placeId) : Sub)).Nodup := by
    apply hids.map
    intro p p' hp
    simpa using hp
  have hcontributors :
      (contributorIds.zipIdx.map fun u => ((base + 3 + u.2, none) : Sub)).Nodup := by
    apply List.Nodup.of_map fun q : Sub => q.1 - (base + 3)
    simp only [List.map_map, Function.comp_def, Nat.add_sub_cancel_left]
    rw [List.zipIdx_map_snd]
    exact List.nodup_range'
  simp only [showing, List.cons_append, List.nodup_cons, List.mem_cons, List.mem_append,
    List.mem_map, not_or, List.nodup_append]
  refine ⟨⟨by simp, by simp, ?_⟩, ⟨by simp, ?_⟩, hplaces, hcontributors, ?_⟩
  · rintro ⟨u, -, hu⟩
    have hi := congrArg Prod.fst hu
    dsimp only at hi
    omega
  · rintro ⟨u, -, hu⟩
    have hi := congrArg Prod.fst hu
    dsimp only at hi
    omega
  · intro q hq q' hq' heq
    obtain ⟨placeId, -, rfl⟩ := hq
    obtain ⟨u, -, rfl⟩ := hq'
    cases congrArg Prod.snd heq

/-! ## What they are due -/

theorem Watching.getElem? (h : Watching s older L b) (k : Nat) :
    s.bloc.listeners[older.length + k]? =
      (PlacesListener.placeList L :: .listOwner L :: below L b)[k]? := by
  rw [h.listeners, List.getElem?_append_right (Nat.le_add_right _ _), Nat.add_sub_cancel_left]

section Due

variable (h : Watching s older L (some ⟨contributorIds, some placeIds⟩))

include h

theorem due_list : s.due (older.length, none) =
    .doc (s.docs.lookup (.placeLists L.value.placeListId)) := by
  have hx := h.getElem? 0
  simp only [Nat.add_zero, List.getElem?_cons_zero] at hx
  simp [due, hx, PlacesListener.read]

theorem due_docs : s.due (older.length + 2, none) = .docs (L.value.collection s.docs) := by
  simp [due, h.getElem? 2, below, PlacesListener.read]

theorem due_place (placeId : String) : s.due (older.length + 2, some placeId) =
    .place placeId (s.docs.lookup (L.value.placePath placeId)) := by
  simp [due, h.getElem? 2, below, PlacesListener.read, PlacesListener.load]

theorem getElem?_contributor {j : Nat} {userId : String}
    (hj : contributorIds[j]? = some userId) :
    s.bloc.listeners[older.length + 3 + j]? = some (.contributor L userId) := by
  rw [Nat.add_assoc, h.getElem? (3 + j), Nat.add_comm 3 j]
  simp [below, hj]

theorem due_contributor {j : Nat} {userId : String} (hj : contributorIds[j]? = some userId) :
    s.due (older.length + 3 + j, none) = .doc (s.docs.lookup (.users userId)) := by
  simp [due, getElem?_contributor h hj, PlacesListener.read]

/-- The listeners that show are open. -/
theorem mem_openSubs_showing {q : Sub}
    (hq : q ∈ showing older.length contributorIds placeIds) :
    q ∈ openSubs s.bloc.listeners ∧ mine older.length q = true := by
  rcases mem_showing.mp hq with rfl | rfl | ⟨placeId, hp, rfl⟩ | ⟨j, hj, rfl⟩
  · refine ⟨mem_openSubs.mpr ⟨.placeList L, ?_, by simp⟩, by simp [mine]⟩
    simpa using h.getElem? 0
  · refine ⟨mem_openSubs.mpr ⟨.places L (some placeIds), ?_, by simp⟩, by simp [mine]⟩
    simpa [below] using h.getElem? 2
  · refine ⟨mem_openSubs.mpr ⟨.places L (some placeIds), ?_, ?_⟩, by simp [mine]⟩
    · simpa [below] using h.getElem? 2
    · intro placeId' hp'
      cases hp'
      exact hp
  · refine ⟨mem_openSubs.mpr ⟨.contributor L contributorIds[j],
      getElem?_contributor h (List.getElem?_eq_getElem hj), by simp⟩, ?_⟩
    simp only [mine, Bool.and_eq_true, decide_eq_true_eq]
    omega

/-- No other listener of the last load shows. -/
theorem mem_showing_of_open {q : Sub} (hq : q ∈ openSubs s.bloc.listeners)
    (hmine : mine older.length q = true) :
    q ∈ showing older.length contributorIds placeIds := by
  obtain ⟨i, o⟩ := q
  simp only [mine, Bool.and_eq_true, decide_eq_true_eq] at hmine
  obtain ⟨x, hx, hbelow⟩ := mem_openSubs.mp hq
  have hnone : x.below = [] → o = none := by
    intro hnil
    cases o with
    | none => rfl
    | some placeId => simpa [hnil] using hbelow placeId rfl
  rw [mem_showing]
  rcases h.at hx hmine.1 with ⟨hi, rfl⟩ | ⟨hi, rfl⟩ | ⟨y, hy, ⟨hi, rfl⟩ | ⟨j, userId, hi, hj, rfl⟩⟩
  · exact .inl (Prod.ext hi (hnone rfl))
  · exact absurd hi hmine.2
  · cases hy
    cases o with
    | none => exact .inr (.inl (Prod.ext hi rfl))
    | some placeId =>
      exact .inr (.inr (.inl ⟨placeId, hbelow placeId rfl, Prod.ext hi rfl⟩))
  · cases hy
    exact .inr (.inr (.inr ⟨j, (List.getElem?_eq_some_iff.mp hj).1, Prod.ext hi (hnone rfl)⟩))

end Due

/-- With nothing on its way the listener of the list has come, and so has
that of the subcollection. -/
theorem Watching.has_come (h : Watching s older L b) (hcurrent : Current s)
    (hfeed : s.feed = []) :
    ∃ contributorIds placeIds, b = some ⟨contributorIds, some placeIds⟩ := by
  have hgiven : ∀ k x, (PlacesListener.placeList L :: .listOwner L :: below L b)[k]? = some x →
      mine older.length (older.length + k, none) = true →
      (older.length + k, none) ∈ (recent older.length s.log).map Prod.fst := by
    intro k x hx hmine
    rw [← h.getElem?] at hx
    have hopen : (older.length + k, none) ∈ openSubs s.bloc.listeners :=
      mem_openSubs.mpr ⟨x, hx, by simp⟩
    have hlast := hcurrent (older.length + k, none) hopen x hx
    rw [hfeed, List.append_nil] at hlast
    exact List.mem_map_of_mem (f := Prod.fst) (mem_recent.mpr ⟨mem_of_yielded hlast, hmine⟩)
  cases hb : b with
  | none =>
    have hlist := h.list
    rw [hb] at hlist
    exact absurd (hgiven 0 _ rfl (by simp [mine])) hlist
  | some y =>
    cases hshown : y.shown with
    | none =>
      have hdocs := h.docs y hb
      rw [hshown] at hdocs
      exact absurd (hgiven 2 (.places L y.shown) (by simp [hb, below]) (by simp [mine])) hdocs
    | some placeIds => exact ⟨y.contributorIds, placeIds, by rw [← hshown]⟩

section Given

variable (h : Watching s older L (some ⟨contributorIds, some placeIds⟩))

include h

/-- Everything has been given, once. -/
theorem recent_perm (hcurrent : Current s) (hfeed : s.feed = []) :
    (recent older.length s.log).Perm
      ((showing older.length contributorIds placeIds).map fun q => (q, s.due q)) := by
  obtain ⟨ds, -, -, hnodup⟩ := h.docs _ rfl
  apply perm_of_once h.once (showing_nodup _ hnodup)
  · intro q hq
    obtain ⟨hopen, hmine⟩ := mem_openSubs_showing h hq
    obtain ⟨x, hx, -⟩ := mem_openSubs.mp hopen
    have hlast := hcurrent q hopen x hx
    rw [hfeed, List.append_nil] at hlast
    rw [recent, yielded_filter (fun e _ he => he ▸ hmine), hlast]
    simp [due, hx]
  · intro e he
    exact mem_showing_of_open h (h.isOpen e he) (mem_recent.mp he).2

/-- What has been given is what is due. -/
theorem given_due (hcurrent : Current s) (hfeed : s.feed = []) {q : Sub}
    {snap : PlacesSnapshot} (hmem : (q, snap) ∈ recent older.length s.log) :
    snap = s.due q := by
  have hperm := (recent_perm h hcurrent hfeed).mem_iff.mp hmem
  obtain ⟨q', -, heq⟩ := List.mem_map.mp hperm
  cases heq
  rfl

/-- What is due has been given. -/
theorem due_given (hcurrent : Current s) (hfeed : s.feed = []) {q : Sub}
    (hq : q ∈ showing older.length contributorIds placeIds) :
    (q, s.due q) ∈ recent older.length s.log :=
  (recent_perm h hcurrent hfeed).mem_iff.mpr (List.mem_map_of_mem hq)

end Given

/-- Reading what can all be read. -/
theorem map_eq_map_ok {α β : Type} {f : α → Except Err β} {xs : List α}
    (h : ∀ x ∈ xs, (f x).isOk = true) :
    xs.map f = (xs.filterMap fun x => (f x).toOption).map .ok := by
  induction xs with
  | nil => rfl
  | cons x xs ih =>
    have hx := h x List.mem_cons_self
    have hxs := ih fun y hy => h y (List.mem_cons_of_mem _ hy)
    cases hf : f x with
    | error e => simp [hf, Except.isOk, Except.toBool] at hx
    | ok y => simp [hf, hxs, Except.toOption]

/-! ## The lists are exact -/

/-- The places. -/
theorem Watching.shows_places (h : Watching s older L (some ⟨contributorIds, some placeIds⟩))
    (hcurrent : Current s) (hfeed : s.feed = []) :
    ∃ places, (L.value.collection s.docs).map (fun e => Place.fromSnapshot (some e.2)) =
      places.map .ok ∧ s.bloc.savedPlaces.Perm places := by
  -- the places listened to are those of the subcollection
  have hids : placeIds = (L.value.collection s.docs).map Prod.fst := by
    obtain ⟨ds, hds, hids, -⟩ := h.docs _ rfl
    have hdue := given_due h hcurrent hfeed hds
    rw [due_docs h] at hdue
    cases hdue
    exact hids
  have hlookup : ∀ e ∈ L.value.collection s.docs,
      s.docs.lookup (L.value.placePath e.1) = some e.2 := by
    intro e he
    exact Load.mem_collection.mp he
  refine ⟨(L.value.collection s.docs).filterMap fun e =>
    (Place.fromSnapshot (some e.2)).toOption, map_eq_map_ok ?_, ?_⟩
  · intro e he
    have hmem : (older.length + 2, some e.1) ∈ showing older.length contributorIds placeIds :=
      mem_showing.mpr (.inr (.inr (.inl ⟨e.1, hids ▸ List.mem_map_of_mem he, rfl⟩)))
    have hread := h.isRead _ (due_given h hcurrent hfeed hmem) (.places L (some placeIds))
      (by simpa [below] using h.getElem? 2)
    rwa [due_place h, hlookup e he] at hread
  · have hfilter : (showing older.length contributorIds placeIds).filterMap
        (fun q => placeOf (q, s.due q)) =
          (L.value.collection s.docs).filterMap fun e =>
            (Place.fromSnapshot (some e.2)).toOption := by
      have hcontributors : (contributorIds.zipIdx.map fun u =>
          ((older.length + 3 + u.2, none) : Sub)).filterMap
            (fun q => placeOf (q, s.due q)) = [] := by
        rw [List.filterMap_map, List.filterMap_eq_nil_iff]
        intro u hu
        have hj := List.mem_zipIdx_iff_getElem?.mp hu
        simp [due_contributor h hj, placeOf]
      rw [showing, List.filterMap_append, hcontributors, List.append_nil]
      simp only [List.filterMap_cons, due_list h, due_docs h, placeOf, List.filterMap_map,
        Function.comp_def, due_place h]
      rw [hids, List.filterMap_map]
      apply List.filterMap_congr
      intro e he
      simp only [Function.comp_apply, hlookup e he]
    have hperm := (recent_perm h hcurrent hfeed).filterMap placeOf
    rwa [← h.places, List.filterMap_map, Function.comp_def, hfilter] at hperm

/-- The contributors. -/
theorem Watching.shows_contributors
    (h : Watching s older L (some ⟨contributorIds, some placeIds⟩)) (hcurrent : Current s)
    (hfeed : s.feed = []) :
    ∃ placeList users,
      PlaceList.fromSnapshot L.value.placeListId
        (s.docs.lookup (.placeLists L.value.placeListId)) = .ok placeList ∧
      (placeList.contributorIds.getD []).Nodup ∧
      (placeList.contributorIds.getD []).map
        (fun userId => User.fromSnapshot userId (s.docs.lookup (.users userId))) =
        users.map .ok ∧
      s.bloc.contributors.Perm users := by
  obtain ⟨d, placeList, hd, hread, hids⟩ := h.list
  have hdue := given_due h hcurrent hfeed hd
  rw [due_list h] at hdue
  cases hdue
  have hids' : contributorIds = placeList.contributorIds.getD [] := hids
  have hnodup := h.isRead _ hd (.placeList L) (by simpa using h.getElem? 0)
  simp only [readable, hread, decide_eq_true_eq] at hnodup
  refine ⟨placeList, contributorIds.filterMap fun userId =>
    (User.fromSnapshot userId (s.docs.lookup (.users userId))).toOption, hread, hnodup, ?_, ?_⟩
  · rw [← hids']
    apply map_eq_map_ok
    intro userId hu
    obtain ⟨j, hj, rfl⟩ := List.getElem_of_mem hu
    have hget := List.getElem?_eq_getElem hj
    have hmem : (older.length + 3 + j, none) ∈ showing older.length contributorIds placeIds :=
      mem_showing.mpr (.inr (.inr (.inr ⟨j, hj, rfl⟩)))
    have hok := h.isRead _ (due_given h hcurrent hfeed hmem) _ (getElem?_contributor h hget)
    rwa [due_contributor h hget] at hok
  · have hfilter : (showing older.length contributorIds placeIds).filterMap
        (fun q => userOf s.bloc.listeners (q, s.due q)) = contributorIds.filterMap fun userId =>
          (User.fromSnapshot userId (s.docs.lookup (.users userId))).toOption := by
      have hlist : userOf s.bloc.listeners ((older.length, none), s.due (older.length, none)) =
          none := by
        simp [userOf, h.listeners]
      have hdocs : ∀ o, userOf s.bloc.listeners
          ((older.length + 2, o), s.due (older.length + 2, o)) = none := by
        intro o
        simp [userOf, h.getElem? 2, below]
      rw [showing, List.filterMap_append]
      simp only [List.filterMap_cons, hlist, hdocs, List.filterMap_map, Function.comp_def,
        List.filterMap_none, List.nil_append]
      conv_rhs => rw [← List.zipIdx_map_fst 0 contributorIds, List.filterMap_map]
      apply List.filterMap_congr
      intro u hu
      have hj := List.mem_zipIdx_iff_getElem?.mp hu
      simp only [due_contributor h hj, userOf, getElem?_contributor h hj, Function.comp_apply]
    have hperm := (recent_perm h hcurrent hfeed).filterMap (userOf s.bloc.listeners)
    rwa [← h.contributors, List.filterMap_map, Function.comp_def, hfilter] at hperm

/-- In a run that keeps the promise, a loaded state shows exactly the places
and the contributors of its list, whenever nothing is on its way. -/
theorem places_shown (docs : Docs) (happenings : List Happening) (s : Screen)
    (h : Events.replay step keepsShown { docs := docs } happenings = some s)
    {p : From PlaceList} {o : From User} {stream : From PlacesStream}
    (hloaded : s.bloc.state = .loaded p o stream) (hfeed : s.feed = []) :
    ∃ l, s.bloc.loads[p.load]? = some l ∧ p.value = l.placeList ∧ s.ShowsExactly l := by
  obtain ⟨hseen, hone, htrue⟩ := seen_replay h
  have hcurrent := (current_replay h).2
  obtain ⟨l, hl, hp⟩ := (htrue.state p o stream hloaded).placeList
  have hlast := hone.state p o stream hloaded
  rcases hseen with ⟨hnone, -, -⟩ | ⟨older, L, b, hwatch⟩
  · simp [hnone] at hlast
  · obtain ⟨contributorIds, placeIds, rfl⟩ := hwatch.has_come hcurrent hfeed
    -- the load of the state is the one that is watched
    have hload : l = L.value := by
      have hmem : PlacesListener.placeList L ∈ s.bloc.listeners := by simp [hwatch.listeners]
      obtain ⟨l', hl', rfl⟩ := htrue.listeners _ hmem
      have hsame : p.load = L.load := by
        have hloads := hwatch.loads
        omega
      rw [hsame] at hl
      exact Option.some.inj (hl.symm.trans hl')
    subst hload
    exact ⟨L.value, hl, hp, hwatch.shows_places hcurrent hfeed,
      hwatch.shows_contributors hcurrent hfeed⟩

/-- A list of `ada` with one place, to which `bob` contributes. -/
def romeDocs : Docs :=
  ((Docs.put ∅ (.placeLists "rome") (listDoc "ada" ["bob"])).put (.users "ada")
    (userDoc "ada" ["rome"])).put (.users "bob") (userDoc "bob" ["rome"])
    |>.put (.users "cyn") (userDoc "cyn" ["rome"])
    |>.put (.places "rome" "p1") (Doc.ofList colosseum.toDocument)

/-- `rome` is opened, and every listener gets its snapshot. -/
def openedRun : List Happening :=
  [.load (SavedPlacesBloc.cityList "rome") false, .deliver (0, none), .deliver (1, none),
    .deliver (2, none), .deliver (2, some "p1"), .deliver (3, none), .wait 1000, .finish 0]

theorem places_shown_rome :
    ∃ (s : Screen) (p : Nat) (l : Load),
      Events.replay step keepsShown { docs := romeDocs } openedRun = some s ∧
      s.bloc.savedPlaces.length = 1 ∧ s.bloc.contributors.length = 1 ∧
      s.bloc.loads[p]? = some l ∧ s.ShowsExactly l := by
  have hrun : (Events.replay step keepsShown { docs := romeDocs } openedRun).any (fun s =>
      s.bloc.savedPlaces.length = 1 ∧ s.bloc.contributors.length = 1 ∧ s.feed.isEmpty ∧
        s.bloc.state.loaded?.isSome) = true := by decide
  obtain ⟨s, hs, hends⟩ := (Option.any_eq_true _ _).mp hrun
  simp only [Bool.decide_and, Bool.and_eq_true, decide_eq_true_eq, List.isEmpty_iff,
    Option.isSome_iff_exists, SavedPlacesState.loaded?_eq_some] at hends
  obtain ⟨hplaces, hcontributors, hfeed, ⟨p, o, stream⟩, hloaded⟩ := hends
  obtain ⟨l, hl, -, hshows⟩ := places_shown romeDocs openedRun s hs hloaded hfeed
  exact ⟨s, p.load, l, hs, hplaces, hcontributors, hl, hshows⟩

/-- `cyn` joins the list that is open. Its new snapshot opens the listeners
of the places and of the contributors once more. -/
def joinedRun : List Happening :=
  openedRun ++ [.put (.placeLists "rome") (listDoc "ada" ["bob", "cyn"]), .deliver (0, none),
    .deliver (4, none), .deliver (4, some "p1"), .deliver (5, none), .deliver (6, none)]

theorem places_twice :
    ¬ ∀ docs happenings s, Events.replay step handledInTurn { docs := docs } happenings = some s →
      ∀ p o stream, s.bloc.state = .loaded p o stream → s.feed = [] →
        ∃ l, s.bloc.loads[p.load]? = some l ∧ p.value = l.placeList ∧ s.ShowsExactly l := by
  intro hclaim
  have hrun : (Events.replay step handledInTurn { docs := romeDocs } joinedRun).any (fun s =>
      s.feed.isEmpty ∧ s.bloc.state.loaded?.isSome ∧ ∀ l ∈ s.bloc.loads,
        (l.collection s.docs).length ≠ s.bloc.savedPlaces.length) = true := by decide
  obtain ⟨s, hs, hends⟩ := (Option.any_eq_true _ _).mp hrun
  simp only [Bool.decide_and, Bool.and_eq_true, decide_eq_true_eq, List.isEmpty_iff,
    Option.isSome_iff_exists, SavedPlacesState.loaded?_eq_some] at hends
  obtain ⟨hfeed, ⟨⟨p, o, stream⟩, hloaded⟩, htwice⟩ := hends
  obtain ⟨l, hl, -, hshows⟩ := hclaim romeDocs joinedRun s hs p o stream hloaded hfeed
  obtain ⟨places, hread, hperm⟩ := hshows.places
  have hlength := congrArg List.length hread
  rw [List.length_map, List.length_map, ← hperm.length_eq] at hlength
  exact htwice l (List.mem_of_getElem? hl) hlength

end GottaGo.Screen
