/-
GottaGo.Places.Watching — what the last load has opened, and what it has
been given.

`Watching` is the invariant of the runs that keep the promise
`keepsShown`. The listeners of the last load stand behind those of all
earlier ones: that of the list, that of the list owner, and once the list
has come that of the places and those of the contributors. The lists that
are shown hold what these listeners have been given, each at most once.
Each kind of snapshot has a lemma (`onPlaceList`, `onDocs`, `onPlace`,
`onContributor`), and `seen_replay` is the run.
-/
import GottaGo.Places.Snapshots

namespace GottaGo

open GottaGo.Async GottaGo.Firestore GottaGo.Rx GottaGo.PlaceListRepository

/-- A listener as it was opened. -/
def PlacesListener.opened : PlacesListener → PlacesListener
  | .places load _ => .places load none
  | x => x

namespace Screen

/-! ## What the last load has opened -/

/-- What the listener of the list has opened: the contributors, and what
`getPlaces` listens to. -/
structure Below where
  contributorIds : List String
  shown : Option (List String)

/-- The listeners below that of the list. -/
def below (L : From Load) : Option Below → List PlacesListener
  | none => []
  | some b => .places L b.shown :: b.contributorIds.map (.contributor L)

/-- The listeners from `base` on that show; `base + 1` is that of the list
owner. -/
def mine (base : Nat) (q : Sub) : Bool := base ≤ q.1 && q.1 ≠ base + 1

/-- What these have been given. -/
def recent (base : Nat) (log : List (Sub × PlacesSnapshot)) :
    List (Sub × PlacesSnapshot) :=
  log.filter fun e => mine base e.1

/-- The place a snapshot adds. -/
def placeOf (e : Sub × PlacesSnapshot) : Option Place :=
  match e.2 with
  | .place _ d => (Place.fromSnapshot d).toOption
  | _ => none

/-- The contributor a snapshot adds. -/
def userOf (xs : List PlacesListener) (e : Sub × PlacesSnapshot) : Option User :=
  match xs[e.1.1]?, e.2 with
  | some (.contributor _ userId), .doc d => (User.fromSnapshot userId d).toOption
  | _, _ => none

/-- The contributors were opened for a snapshot of the list, none while it
has not come. -/
def ListGiven (L : From Load) (base : Nat) (given : List (Sub × PlacesSnapshot)) :
    Option Below → Prop
  | none => (base, none) ∉ given.map Prod.fst
  | some b => ∃ d placeList, ((base, none), .doc d) ∈ given ∧
      PlaceList.fromSnapshot L.value.placeListId d = .ok placeList ∧
      b.contributorIds = placeList.contributorIds.getD []

/-- The places listened to are those of a snapshot of the subcollection,
none while it has not come. -/
def DocsGiven (base : Nat) (given : List (Sub × PlacesSnapshot)) :
    Option (List String) → Prop
  | none => (base + 2, none) ∉ given.map Prod.fst
  | some placeIds => ∃ docs, ((base + 2, none), .docs docs) ∈ given ∧
      placeIds = docs.map Prod.fst ∧ placeIds.Nodup

/-- The last load is `L`, its listeners start after `older`, and the lists
shown hold what they have been given. -/
structure Watching (s : Screen) (older : List PlacesListener) (L : From Load)
    (b : Option Below) : Prop where
  listeners : s.bloc.listeners = older ++ .placeList L :: .listOwner L :: below L b
  loads : s.bloc.loads.length = L.load + 1
  isOlder : ∀ x ∈ older, x.load.load < L.load
  bound : ∀ e ∈ s.log, e.1.1 < s.bloc.listeners.length
  isOpen : ∀ e ∈ recent older.length s.log, e.1 ∈ openSubs s.bloc.listeners
  isRead : ∀ e ∈ recent older.length s.log, ∀ x, s.bloc.listeners[e.1.1]? = some x →
    readable x e.2 = true
  once : ((recent older.length s.log).map Prod.fst).Nodup
  places : s.bloc.savedPlaces = (recent older.length s.log).filterMap placeOf
  contributors : s.bloc.contributors =
    (recent older.length s.log).filterMap (userOf s.bloc.listeners)
  list : ListGiven L older.length (recent older.length s.log) b
  docs : ∀ x ∈ b, DocsGiven older.length (recent older.length s.log) x.shown

/-- Nothing has been loaded. -/
def Untouched (s : Screen) : Prop :=
  s.bloc.loads = [] ∧ s.bloc.listeners = [] ∧ s.log = []

variable {s s' : Screen} {older : List PlacesListener} {L : From Load} {b : Option Below}

@[simp] theorem recent_append (base : Nat) (log : List (Sub × PlacesSnapshot))
    (e : Sub × PlacesSnapshot) :
    recent base (log ++ [e]) = recent base log ++ if mine base e.1 then [e] else [] := by
  simp only [recent, List.filter_append]
  cases h : mine base e.1 <;> simp [h]

/-- The listeners of the last load. -/
theorem Watching.at (h : Watching s older L b) {i : Nat} {x : PlacesListener}
    (hx : s.bloc.listeners[i]? = some x) (hi : older.length ≤ i) :
    (i = older.length ∧ x = .placeList L) ∨ (i = older.length + 1 ∧ x = .listOwner L) ∨
      ∃ y, b = some y ∧ ((i = older.length + 2 ∧ x = .places L y.shown) ∨
        ∃ j userId, i = older.length + 3 + j ∧ y.contributorIds[j]? = some userId ∧
          x = .contributor L userId) := by
  obtain ⟨k, rfl⟩ := Nat.exists_eq_add_of_le hi
  rw [h.listeners, List.getElem?_append_right hi, Nat.add_sub_cancel_left] at hx
  cases k with
  | zero =>
    cases hx
    exact .inl ⟨rfl, rfl⟩
  | succ k =>
    cases k with
    | zero =>
      cases hx
      exact .inr (.inl ⟨rfl, rfl⟩)
    | succ k =>
      simp only [List.getElem?_cons_succ] at hx
      cases b with
      | none => simp [below] at hx
      | some y =>
        refine .inr (.inr ⟨y, rfl, ?_⟩)
        cases k with
        | zero =>
          cases hx
          exact .inl ⟨rfl, rfl⟩
        | succ j =>
          simp only [below, List.getElem?_cons_succ, List.getElem?_map,
            Option.map_eq_some_iff] at hx
          obtain ⟨userId, hu, rfl⟩ := hx
          exact .inr ⟨j, userId, by omega, hu, rfl⟩

/-- A listener of the last load is one of these. -/
theorem Watching.base_le (h : Watching s older L b) {i : Nat} {x : PlacesListener}
    (hx : s.bloc.listeners[i]? = some x) (hload : x.load.load + 1 = s.bloc.loads.length) :
    older.length ≤ i := by
  by_contra hlt
  have hlt' : i < older.length := Nat.lt_of_not_le hlt
  rw [h.listeners, List.getElem?_append_left hlt'] at hx
  have hold := h.isOlder x (List.mem_of_getElem? hx)
  have hloads := h.loads
  omega

/-- The listener of a list owner does not show. -/
theorem Watching.not_mine (h : Watching s older L b) {q : Sub} {load : From Load}
    (hx : s.bloc.listeners[q.1]? = some (.listOwner load)) :
    mine older.length q = false := by
  by_cases hi : older.length ≤ q.1
  · rcases h.at hx hi with ⟨-, hx'⟩ | ⟨hq, -⟩ | ⟨y, -, ⟨-, hx'⟩ | ⟨j, userId, -, -, hx'⟩⟩
    · cases hx'
    · simp [mine, hq]
    · cases hx'
    · cases hx'
  · simp [mine, hi]

/-! ## What a step keeps -/

theorem readable_opened (x : PlacesListener) (snap : PlacesSnapshot) :
    readable x.opened snap = readable x snap := by
  cases x <;> cases snap <;> rfl

/-- The listeners that are there stay, and what is open stays open. -/
structure Extends (xs ys : List PlacesListener) : Prop where
  isOpen : ∀ q ∈ openSubs xs, q ∈ openSubs ys
  opened : ∀ i < xs.length, ys[i]?.map PlacesListener.opened = xs[i]?.map PlacesListener.opened

variable {xs ys : List PlacesListener} {q : Sub} {snap : PlacesSnapshot}

theorem Extends.refl (xs : List PlacesListener) : Extends xs xs where
  isOpen _ hq := hq
  opened _ _ := rfl

theorem Extends.append (xs ys : List PlacesListener) : Extends xs (xs ++ ys) where
  isOpen _ hq := openSubs_append xs ys hq
  opened i hi := by rw [List.getElem?_append_left hi]

theorem Extends.length_le (h : Extends xs ys) : xs.length ≤ ys.length := by
  by_contra hlt
  have hi : ys.length < xs.length := Nat.lt_of_not_le hlt
  have hget := h.opened ys.length hi
  simp [List.getElem?_eq_getElem hi] at hget

/-- The listener of a subcollection starts to listen to its places. -/
theorem Extends.set {i : Nat} {load : From Load} (hi : xs[i]? = some (.places load none))
    (shown : Option (List String)) : Extends xs (xs.set i (.places load shown)) where
  isOpen q hq := by
    obtain ⟨x, hx, hbelow⟩ := mem_openSubs.mp hq
    by_cases hqi : q.1 = i
    · have hlt : i < xs.length := (List.getElem?_eq_some_iff.mp hi).1
      rw [hqi, hi] at hx
      cases hx
      refine mem_openSubs.mpr ⟨.places load shown, by rw [hqi, List.getElem?_set_self hlt], ?_⟩
      intro placeId hq'
      exact absurd (hbelow placeId hq') (by simp [PlacesListener.below])
    · exact mem_openSubs.mpr ⟨x, by rw [List.getElem?_set_ne (Ne.symm hqi), hx], hbelow⟩
  opened j hj := by
    by_cases hji : j = i
    · rw [hji, List.getElem?_set_self (hji ▸ hj), hi]
      rfl
    · rw [List.getElem?_set_ne (Ne.symm hji)]

theorem Extends.userOf (h : Extends xs ys) {e : Sub × PlacesSnapshot}
    (he : e.1.1 < xs.length) : userOf ys e = userOf xs e := by
  have hsame := h.opened e.1.1 he
  have hx : xs[e.1.1]? = some xs[e.1.1] := List.getElem?_eq_getElem he
  rw [hx, Option.map_some, Option.map_eq_some_iff] at hsame
  obtain ⟨y, hy, hopened⟩ := hsame
  simp only [Screen.userOf, hx, hy]
  generalize xs[e.1.1] = x at hopened
  cases x <;> cases y <;> simp only [PlacesListener.opened, reduceCtorEq] at hopened <;>
    first
    | rfl
    | (cases hopened; rfl)

theorem Extends.readable (h : Extends xs ys) (snap : PlacesSnapshot) {i : Nat}
    (hi : i < xs.length) {y : PlacesListener} (hy : ys[i]? = some y) :
    ∃ x, xs[i]? = some x ∧ readable y snap = readable x snap := by
  refine ⟨xs[i], List.getElem?_eq_getElem hi, ?_⟩
  have hsame := h.opened i hi
  rw [hy, List.getElem?_eq_getElem hi, Option.map_some, Option.map_some,
    Option.some.injEq] at hsame
  rw [← readable_opened, hsame, readable_opened]

/-! ## Listeners that are given a snapshot -/

theorem ListGiven.append {base : Nat} {given : List (Sub × PlacesSnapshot)} {y : Below}
    (h : ListGiven L base given (some y)) (e : Sub × PlacesSnapshot) :
    ListGiven L base (given ++ [e]) (some y) := by
  obtain ⟨d, placeList, hd, hread, hids⟩ := h
  exact ⟨d, placeList, List.mem_append_left _ hd, hread, hids⟩

theorem DocsGiven.append {base : Nat} {given : List (Sub × PlacesSnapshot)}
    {shown : Option (List String)} {e : Sub × PlacesSnapshot}
    (h : DocsGiven base given shown) (he : e.1 ≠ (base + 2, none)) :
    DocsGiven base (given ++ [e]) shown := by
  cases shown with
  | none =>
    show (base + 2, none) ∉ (given ++ [e]).map Prod.fst
    rw [List.map_append, List.mem_append, not_or]
    refine ⟨h, ?_⟩
    simp only [List.map_cons, List.map_nil, List.mem_singleton]
    exact Ne.symm he
  | some placeIds =>
    obtain ⟨ds, hds, hids⟩ := h
    exact ⟨ds, List.mem_append_left _ hds, hids⟩

theorem mem_recent {base : Nat} {log : List (Sub × PlacesSnapshot)}
    {e : Sub × PlacesSnapshot} : e ∈ recent base log ↔ e ∈ log ∧ mine base e.1 = true :=
  List.mem_filter

/-- One that has been given nothing is not among those that have. -/
theorem notMem_recent {base : Nat} {log : List (Sub × PlacesSnapshot)}
    (hq : q ∉ log.map Prod.fst) : q ∉ (recent base log).map Prod.fst := by
  intro hmem
  obtain ⟨e, he, rfl⟩ := List.mem_map.mp hmem
  exact hq (List.mem_map_of_mem (mem_recent.mp he).1)

/-- A listener that does not show is given a snapshot. -/
theorem Watching.unseen (h : Watching s older L b) {x : PlacesListener}
    (hx : s.bloc.listeners[q.1]? = some x) (hmine : mine older.length q = false)
    (hlog : s'.log = s.log ++ [(q, snap)]) {listOwner : Option (From User)}
    (hbloc : s'.bloc = { s.bloc with listOwner := listOwner }) :
    Watching s' older L b := by
  have hrecent : recent older.length s'.log = recent older.length s.log := by
    simp [hlog, hmine]
  obtain ⟨h1, h2, h3, hbound, h5, h6, h7, h8, h9, h10, h11⟩ := h
  refine ⟨?_, ?_, h3, ?_, ?_, ?_, ?_, ?_, ?_, ?_, ?_⟩ <;> simp only [hrecent, hbloc]
  all_goals try assumption
  intro e he
  rw [hlog, List.mem_append, List.mem_singleton] at he
  rcases he with he | rfl
  · exact hbound e he
  · exact (List.getElem?_eq_some_iff.mp hx).1

/-- A listener that shows is given its one snapshot. -/
theorem Watching.given (h : Watching s older L b) {b' : Option Below} {x : PlacesListener}
    (hx : s.bloc.listeners[q.1]? = some x) (hmine : mine older.length q = true)
    (hopen : q ∈ openSubs s.bloc.listeners) (hnew : q ∉ s.log.map Prod.fst)
    (hread : readable x snap = true) (hlog : s'.log = s.log ++ [(q, snap)])
    (hext : Extends s.bloc.listeners s'.bloc.listeners)
    (hlisteners : s'.bloc.listeners = older ++ .placeList L :: .listOwner L :: below L b')
    (hloads : s'.bloc.loads = s.bloc.loads)
    (hplaces : s'.bloc.savedPlaces = s.bloc.savedPlaces ++ (placeOf (q, snap)).toList)
    (hcontributors : s'.bloc.contributors =
      s.bloc.contributors ++ (userOf s.bloc.listeners (q, snap)).toList)
    (hlist : ListGiven L older.length (recent older.length s.log ++ [(q, snap)]) b')
    (hdocs : ∀ y ∈ b', DocsGiven older.length (recent older.length s.log ++ [(q, snap)])
      y.shown) : Watching s' older L b' := by
  have hrecent : recent older.length s'.log =
      recent older.length s.log ++ [(q, snap)] := by
    simp [hlog, hmine]
  have hlt : q.1 < s.bloc.listeners.length := (List.getElem?_eq_some_iff.mp hx).1
  have hold : ∀ e ∈ recent older.length s.log, e.1.1 < s.bloc.listeners.length := by
    intro e he
    exact h.bound e (mem_recent.mp he).1
  refine ⟨hlisteners, hloads ▸ h.loads, h.isOlder, ?_, ?_, ?_, ?_, ?_, ?_, ?_, ?_⟩
  · intro e he
    rw [hlog, List.mem_append, List.mem_singleton] at he
    refine Nat.lt_of_lt_of_le ?_ hext.length_le
    rcases he with he | rfl
    · exact h.bound e he
    · exact hlt
  · intro e he
    rw [hrecent, List.mem_append, List.mem_singleton] at he
    rcases he with he | rfl
    · exact hext.isOpen _ (h.isOpen e he)
    · exact hext.isOpen _ hopen
  · intro e he y hy
    rw [hrecent, List.mem_append, List.mem_singleton] at he
    rcases he with he | rfl
    · obtain ⟨z, hz, hsame⟩ := hext.readable e.2 (hold e he) hy
      rw [hsame]
      exact h.isRead e he z hz
    · obtain ⟨z, hz, hsame⟩ := hext.readable snap hlt hy
      rw [hx] at hz
      cases hz
      rw [hsame]
      exact hread
  · rw [hrecent, List.map_append, List.nodup_append]
    refine ⟨h.once, by simp, ?_⟩
    intro k hk k' hk' hkk
    simp only [List.map_cons, List.map_nil, List.mem_singleton] at hk'
    exact notMem_recent hnew (hk' ▸ hkk ▸ hk)
  · rw [hrecent, List.filterMap_append, hplaces, h.places, List.filterMap_cons]
    cases placeOf (q, snap) <;> rfl
  · rw [hrecent, List.filterMap_append, hcontributors, h.contributors]
    have hsame : (recent older.length s.log).filterMap (userOf s'.bloc.listeners) =
        (recent older.length s.log).filterMap (userOf s.bloc.listeners) := by
      apply List.filterMap_congr
      intro e he
      exact hext.userOf (hold e he)
    have hlast : userOf s'.bloc.listeners (q, snap) = userOf s.bloc.listeners (q, snap) :=
      hext.userOf hlt
    rw [hsame, List.filterMap_cons, hlast]
    cases userOf s.bloc.listeners (q, snap) <;> rfl
  · rw [hrecent]
    exact hlist
  · rw [hrecent]
    exact hdocs

/-! ## The snapshots of the last load -/

/-- The snapshot of the list. -/
theorem Watching.onPlaceList (h : Watching s older L b) {d : Option Doc}
    (hx : s.bloc.listeners[q.1]? = some (.placeList L)) (hq : q = (older.length, none))
    (hopen : q ∈ openSubs s.bloc.listeners) (hnew : q ∉ s.log.map Prod.fst)
    (hread : readable (.placeList L) (.doc d) = true)
    (hlog : s'.log = s.log ++ [(q, .doc d)]) (hbloc : s'.bloc = s.bloc.onPlaceList L d) :
    ∃ b', Watching s' older L b' := by
  have hmine : mine older.length q = true := by simp [mine, hq]
  -- the list has not come before
  have hnone : b = none := by
    cases hb : b with
    | none => rfl
    | some y =>
      obtain ⟨d', placeList, hd', -, -⟩ := hb ▸ h.list
      exact absurd (List.mem_map_of_mem hd') (hq ▸ notMem_recent hnew)
  subst hnone
  cases hlist : PlaceList.fromSnapshot L.value.placeListId d with
  | error e => simp [readable, hlist] at hread
  | ok placeList =>
    have hlisteners : s'.bloc.listeners = s.bloc.listeners ++
        .places L none :: (placeList.contributorIds.getD []).map (.contributor L) := by
      rw [hbloc]
      simp [SavedPlacesBloc.onPlaceList, hlist]
    have hsame : s'.bloc.loads = s.bloc.loads ∧ s'.bloc.savedPlaces = s.bloc.savedPlaces ∧
        s'.bloc.contributors = s.bloc.contributors := by
      rw [hbloc]
      simp [SavedPlacesBloc.onPlaceList, hlist]
    have hlength : s.bloc.listeners.length = older.length + 2 := by
      simp [h.listeners, below]
    refine ⟨some ⟨placeList.contributorIds.getD [], none⟩,
      h.given hx hmine hopen hnew hread hlog ?_ ?_ hsame.1 ?_ ?_ ?_ ?_⟩
    · rw [hlisteners]
      exact .append _ _
    · simp [hlisteners, h.listeners, below]
    · simp [hsame.2.1, placeOf]
    · simp [hsame.2.2, userOf, hx]
    · exact ⟨d, placeList, by simp [hq], hlist, rfl⟩
    · intro y hy
      cases hy
      show (older.length + 2, none) ∉ List.map Prod.fst _
      simp only [List.map_append, List.map_cons, List.map_nil, List.mem_append,
        List.mem_singleton, not_or]
      constructor
      · intro hmem
        obtain ⟨e, he, heq⟩ := List.mem_map.mp hmem
        have hlt := h.bound e (mem_recent.mp he).1
        rw [heq, hlength] at hlt
        exact Nat.lt_irrefl _ hlt
      · simp [hq]

/-- The snapshot of the subcollection. -/
theorem Watching.onDocs (h : Watching s older L b) {y : Below} (hb : b = some y)
    {ds : List (String × Doc)} (hds : (ds.map Prod.fst).Nodup)
    (hx : s.bloc.listeners[q.1]? = some (.places L y.shown))
    (hq : q = (older.length + 2, none)) (hopen : q ∈ openSubs s.bloc.listeners)
    (hnew : q ∉ s.log.map Prod.fst) (hlog : s'.log = s.log ++ [(q, .docs ds)])
    (hbloc : s'.bloc = s.bloc.onPlaces q.1 L y.shown (.inl (ds.map Prod.fst))) :
    ∃ b', Watching s' older L b' := by
  subst hb
  have hmine : mine older.length q = true := by simp [mine, hq]
  -- the subcollection has not come before
  have hnone : y.shown = none := by
    cases hshown : y.shown with
    | none => rfl
    | some placeIds =>
      obtain ⟨ds', hds', -⟩ := hshown ▸ h.docs y rfl
      exact absurd (List.mem_map_of_mem hds') (hq ▸ notMem_recent hnew)
  have hlisteners : s'.bloc.listeners =
      s.bloc.listeners.set q.1 (.places L (some (ds.map Prod.fst))) := by
    rw [hbloc]
    rfl
  rw [hnone] at hx
  refine ⟨some ⟨y.contributorIds, some (ds.map Prod.fst)⟩,
    h.given hx hmine hopen hnew rfl hlog ?_ ?_ ?_ ?_ ?_ ?_ ?_⟩
  · rw [hlisteners]
    exact .set hx _
  · simp [hlisteners, h.listeners, below, hq]
  · rw [hbloc]
    rfl
  · rw [hbloc]
    simp [SavedPlacesBloc.onPlaces, placeOf, getPlaces]
  · rw [hbloc]
    simp [SavedPlacesBloc.onPlaces, userOf, hx]
  · obtain ⟨d, placeList, hd, hread, hids⟩ := h.list
    exact ⟨d, placeList, List.mem_append_left _ hd, hread, hids⟩
  · intro y' hy'
    cases hy'
    exact ⟨ds, by simp [hq], rfl, hds⟩

/-- A merged document lets its place out once. -/
theorem values_getPlaces {placeIds : List String} {placeId : String} {d : Option Doc}
    {place : Place} (hnodup : placeIds.Nodup) (hmem : placeId ∈ placeIds)
    (hread : Place.fromSnapshot d = .ok place) :
    values (getPlaces.out (some placeIds) (.inr (placeId, d))) = [place] := by
  have hone : placeIds.filter (fun k => k = placeId) = [placeId] := by
    simp [List.filter_eq, List.count_eq_one_of_mem hnodup hmem]
  simp [getPlaces, mergeStream, hone, hread]

/-- The snapshot of a place. -/
theorem Watching.onPlace (h : Watching s older L b) {y : Below} (hb : b = some y)
    {placeId : String} {d : Option Doc}
    (hx : s.bloc.listeners[q.1]? = some (.places L y.shown))
    (hq : q = (older.length + 2, some placeId)) (hopen : q ∈ openSubs s.bloc.listeners)
    (hnew : q ∉ s.log.map Prod.fst)
    (hread : readable (.places L y.shown) (.place placeId d) = true)
    (hlog : s'.log = s.log ++ [(q, .place placeId d)])
    (hbloc : s'.bloc = s.bloc.onPlaces q.1 L y.shown (.inr (placeId, d))) :
    Watching s' older L b := by
  subst hb
  have hmine : mine older.length q = true := by simp [mine, hq]
  have hbelow : placeId ∈ (PlacesListener.places L y.shown).below := by
    obtain ⟨x, hx', hbelow⟩ := mem_openSubs.mp hopen
    rw [hx] at hx'
    cases hx'
    exact hbelow placeId (by rw [hq])
  have hlisteners : s'.bloc.listeners = s.bloc.listeners := by
    obtain ⟨hlt, hget⟩ := List.getElem?_eq_some_iff.mp hx
    rw [hbloc]
    show s.bloc.listeners.set q.1 (.places L (getPlaces.next y.shown _)) = _
    rw [getPlaces_next_place, ← hget, List.set_getElem_self]
  cases hplace : Place.fromSnapshot d with
  | error e =>
    simp only [readable, hplace] at hread
    cases hread
  | ok place =>
    cases hshown : y.shown with
    | none => simp [hshown, PlacesListener.below] at hbelow
    | some placeIds =>
      obtain ⟨ds, hds, -, hnodup⟩ := hshown ▸ h.docs y rfl
      have hvalue : values (getPlaces.out y.shown (.inr (placeId, d))) = [place] := by
        rw [hshown] at hbelow ⊢
        exact values_getPlaces hnodup hbelow hplace
      refine h.given hx hmine hopen hnew hread hlog ?_ ?_ ?_ ?_ ?_ (h.list.append _) ?_
      · rw [hlisteners]
        exact .refl _
      · rw [hlisteners, h.listeners]
      · rw [hbloc]
        rfl
      · rw [hbloc]
        show s.bloc.savedPlaces ++ values _ = _
        simp [hvalue, placeOf, hplace, Except.toOption]
      · rw [hbloc]
        simp [SavedPlacesBloc.onPlaces, userOf, hx]
      · intro y' hy'
        cases hy'
        exact (h.docs y rfl).append (by simp [hq])

/-- The snapshot of a contributor. -/
theorem Watching.onContributor (h : Watching s older L b) {y : Below} (hb : b = some y)
    {userId : String} {j : Nat} {d : Option Doc}
    (hx : s.bloc.listeners[q.1]? = some (.contributor L userId))
    (hq : q.1 = older.length + 3 + j) (hopen : q ∈ openSubs s.bloc.listeners)
    (hnew : q ∉ s.log.map Prod.fst)
    (hread : readable (.contributor L userId) (.doc d) = true)
    (hlog : s'.log = s.log ++ [(q, .doc d)])
    (hbloc : s'.bloc = s.bloc.onContributor userId d) : Watching s' older L b := by
  subst hb
  have hmine : mine older.length q = true := by
    simp only [mine, hq, Bool.and_eq_true, decide_eq_true_eq]
    omega
  cases huser : User.fromSnapshot userId d with
  | error e =>
    simp only [readable, huser] at hread
    cases hread
  | ok user =>
    have hbloc' : s'.bloc = { s.bloc with contributors := s.bloc.contributors ++ [user] } := by
      rw [hbloc, SavedPlacesBloc.onContributor, huser]
    refine h.given hx hmine hopen hnew hread hlog ?_ ?_ ?_ ?_ ?_ (h.list.append _) ?_
    · rw [hbloc']
      exact .refl _
    · rw [hbloc', h.listeners]
    · rw [hbloc']
    · simp [hbloc', placeOf]
    · simp [hbloc', userOf, hx, huser, Except.toOption]
    · intro y' hy'
      cases hy'
      refine (h.docs y rfl).append fun heq => ?_
      have hi : q.1 = older.length + 2 := congrArg Prod.fst heq
      omega

/-! ## Every event keeps watching -/

/-- An event that gives nobody anything. -/
theorem Watching.frame (h : Watching s older L b) (hlog : s'.log = s.log)
    (hlisteners : s'.bloc.listeners = s.bloc.listeners)
    (hloads : s'.bloc.loads = s.bloc.loads)
    (hplaces : s'.bloc.savedPlaces = s.bloc.savedPlaces)
    (hcontributors : s'.bloc.contributors = s.bloc.contributors) :
    Watching s' older L b := by
  obtain ⟨h1, h2, h3, h4, h5, h6, h7, h8, h9, h10, h11⟩ := h
  refine ⟨?_, ?_, h3, ?_, ?_, ?_, ?_, ?_, ?_, ?_, ?_⟩ <;>
    simp only [hlog, hlisteners, hloads, hplaces, hcontributors] <;> assumption

/-- A load starts to watch, whatever was watched before. -/
theorem watching_open {l : Load} (hbound : ∀ e ∈ s.log, e.1.1 < s.bloc.listeners.length)
    (hloads : ∀ x ∈ s.bloc.listeners, x.load.load < s.bloc.loads.length)
    (hlog : s'.log = s.log) (hbloc : s'.bloc = s.bloc.open_ l) :
    Watching s' s.bloc.listeners ⟨s.bloc.loads.length, l⟩ none := by
  have hnone : recent s.bloc.listeners.length s'.log = [] := by
    rw [hlog, recent, List.filter_eq_nil_iff]
    intro e he
    have hlt := hbound e he
    simp only [mine, Bool.and_eq_true, decide_eq_true_eq, not_and]
    omega
  refine ⟨?_, ?_, hloads, ?_, ?_, ?_, ?_, ?_, ?_, ?_, ?_⟩
  · rw [hbloc]
    rfl
  · simp [hbloc, SavedPlacesBloc.open_]
  · intro e he
    have hlt := hbound e (hlog ▸ he)
    simp only [hbloc, SavedPlacesBloc.open_, List.length_append]
    omega
  · simp [hnone]
  · simp [hnone]
  · simp [hnone]
  · simp [hnone, hbloc, SavedPlacesBloc.open_]
  · simp [hnone, hbloc, SavedPlacesBloc.open_]
  · simp [ListGiven, hnone]
  · simp

theorem Watching.load_lt (h : Watching s older L b) {x : PlacesListener}
    (hx : x ∈ s.bloc.listeners) : x.load.load < s.bloc.loads.length := by
  obtain ⟨i, hi, hget⟩ := List.getElem_of_mem hx
  have hget' : s.bloc.listeners[i]? = some x := by rw [List.getElem?_eq_getElem hi, hget]
  have hlast := h.loads
  by_cases hbase : older.length ≤ i
  · rcases h.at hget' hbase with ⟨-, rfl⟩ | ⟨-, rfl⟩ | ⟨y, -, ⟨-, rfl⟩ | ⟨j, u, -, -, rfl⟩⟩ <;>
      simp [PlacesListener.load, hlast]
  · rw [h.listeners, List.getElem?_append_left (Nat.lt_of_not_le hbase)] at hget'
    have hold := h.isOlder x (List.mem_of_getElem? hget')
    omega

/-- A listener is given a snapshot that keeps the promise. -/
theorem Watching.deliver (h : Watching s older L b) (hsound : Sound s)
    (hok : keepsShown s (.deliver q) = true) (hstep : s.deliver q = some s') :
    ∃ b', Watching s' older L b' := by
  unfold Screen.deliver at hstep
  split at hstep
  · next snap rest htake =>
    obtain ⟨bloc, hbloc, rfl⟩ := Option.map_eq_some_iff.mp hstep
    obtain ⟨hopen, hplace, hdistinct⟩ := hsound _ (take?_mem htake).1
    have hdeliver : s.bloc.deliver q.1 snap = some bloc := hbloc
    have hpromise : ∀ x, s.bloc.listeners[q.1]? = some x → x.watched = true →
        older.length ≤ q.1 ∧ q ∉ s.log.map Prod.fst ∧ readable x snap = true := by
      intro x hx hwatched
      simp only [keepsShown, htake, hx, hwatched, Bool.and_eq_true, Bool.not_true,
        Bool.false_or, decide_eq_true_eq] at hok
      obtain ⟨-, ⟨hload, hnew⟩, hread⟩ := hok
      exact ⟨h.base_le hx hload, hnew, hread⟩
    rcases SavedPlacesBloc.deliver_cases hdeliver with ⟨load, d, hi, rfl, rfl⟩ |
      ⟨load, d, hi, rfl, rfl⟩ | ⟨load, userId, d, hi, rfl, rfl⟩ |
      ⟨load, shown, ds, hi, rfl, rfl⟩ | ⟨load, shown, placeId, d, hi, rfl, rfl⟩
    · obtain ⟨hbase, hnew, hread⟩ := hpromise _ hi rfl
      rcases h.at hi hbase with ⟨hq, hx⟩ | ⟨-, hx⟩ | ⟨y, -, ⟨-, hx⟩ | ⟨j, u, -, -, hx⟩⟩
      · cases hx
        exact h.onPlaceList hi (Prod.ext hq hplace.symm) hopen hnew hread rfl rfl
      · cases hx
      · cases hx
      · cases hx
    · have hbloc : s.bloc.onListOwner load d =
          { s.bloc with listOwner := (s.bloc.onListOwner load d).listOwner } := by
        unfold SavedPlacesBloc.onListOwner
        split <;> rfl
      exact ⟨b, h.unseen hi (h.not_mine hi) rfl hbloc⟩
    · obtain ⟨hbase, hnew, hread⟩ := hpromise _ hi rfl
      rcases h.at hi hbase with ⟨-, hx⟩ | ⟨-, hx⟩ | ⟨y, hb, ⟨-, hx⟩ | ⟨j, u, hq, -, hx⟩⟩
      · cases hx
      · cases hx
      · cases hx
      · cases hx
        exact ⟨b, h.onContributor hb hi hq hopen hnew hread rfl rfl⟩
    · obtain ⟨hbase, hnew, -⟩ := hpromise _ hi rfl
      rcases h.at hi hbase with ⟨-, hx⟩ | ⟨-, hx⟩ | ⟨y, hb, ⟨hq, hx⟩ | ⟨j, u, -, -, hx⟩⟩
      · cases hx
      · cases hx
      · cases hx
        exact h.onDocs hb hdistinct hi (Prod.ext hq hplace.symm) hopen hnew rfl rfl
      · cases hx
    · obtain ⟨hbase, hnew, hread⟩ := hpromise _ hi rfl
      rcases h.at hi hbase with ⟨-, hx⟩ | ⟨-, hx⟩ | ⟨y, hb, ⟨hq, hx⟩ | ⟨j, u, -, -, hx⟩⟩
      · cases hx
      · cases hx
      · cases hx
        exact ⟨b, h.onPlace hb hi (Prod.ext hq hplace.symm) hopen hnew hread rfl rfl⟩
      · cases hx
  · cases hstep

theorem inBloc_eq_some {e : SavedPlacesBloc.Event} :
    s.inBloc e = some s' ↔ ∃ bloc, s.bloc.step e = some bloc ∧
      s' = s.advance bloc s.feed fun _ => false := by
  simp [inBloc, eq_comm]

/-- Nothing has been loaded, or the last load is watched. -/
def Seen (s : Screen) : Prop := Untouched s ∨ ∃ older L b, Watching s older L b

theorem Seen.frame (h : Seen s) (hlog : s'.log = s.log)
    (hlisteners : s'.bloc.listeners = s.bloc.listeners)
    (hloads : s'.bloc.loads = s.bloc.loads)
    (hplaces : s'.bloc.savedPlaces = s.bloc.savedPlaces)
    (hcontributors : s'.bloc.contributors = s.bloc.contributors) : Seen s' := by
  rcases h with ⟨hl, hx, hg⟩ | ⟨older, L, b, h⟩
  · exact .inl ⟨hloads.trans hl, hlisteners.trans hx, hlog.trans hg⟩
  · exact .inr ⟨older, L, b, h.frame hlog hlisteners hloads hplaces hcontributors⟩

theorem Seen.load (h : Seen s) {l : Load} (hlog : s'.log = s.log)
    (hbloc : s'.bloc = s.bloc.open_ l) : Seen s' := by
  rcases h with ⟨hl, hx, hg⟩ | ⟨older, L, b, h⟩
  · exact .inr ⟨_, _, _, watching_open (by simp [hg]) (by simp [hx]) hlog hbloc⟩
  · exact .inr ⟨_, _, _, watching_open h.bound (fun _ => h.load_lt) hlog hbloc⟩

theorem Seen.deliver (h : Seen s) (hsound : Sound s)
    (hok : keepsShown s (.deliver q) = true) (hstep : s.deliver q = some s') : Seen s' := by
  rcases h with ⟨-, hx, -⟩ | ⟨older, L, b, h⟩
  · unfold Screen.deliver at hstep
    split at hstep
    · obtain ⟨bloc, hbloc, -⟩ := Option.map_eq_some_iff.mp hstep
      simp [SavedPlacesBloc.step, SavedPlacesBloc.deliver, hx] at hbloc
    · cases hstep
  · obtain ⟨b', h'⟩ := h.deliver hsound hok hstep
    exact .inr ⟨older, L, b', h'⟩

theorem Seen.step (h : Seen s) (hsound : Sound s) (hone : s.bloc.OneWaiting) {e : Happening}
    (hok : keepsShown s e = true) (hstep : Screen.step s e = some s') : Seen s' := by
  cases e with
  | put p d =>
    cases hstep
    exact h.frame rfl rfl rfl rfl rfl
  | del p =>
    cases hstep
    exact h.frame rfl rfl rfl rfl rfl
  | load placeList visited =>
    obtain ⟨bloc, hbloc, rfl⟩ := inBloc_eq_some.mp hstep
    cases hbloc
    obtain ⟨id, hid⟩ : ∃ id, placeList.placeListId = some id :=
      Option.isSome_iff_exists.mp (Bool.and_eq_true_iff.mp hok).2
    have hl : Load.of? placeList visited = some ⟨placeList, id, hid, visited⟩ :=
      Load.of?_eq_some.mpr ⟨rfl, rfl⟩
    have hbloc : s.bloc.load placeList visited = s.bloc.open_ ⟨placeList, id, hid, visited⟩ := by
      simp only [SavedPlacesBloc.load, hl]
    exact h.load rfl hbloc
  | deliver q => exact h.deliver hsound hok hstep
  | wait ms =>
    obtain ⟨bloc, hbloc, rfl⟩ := inBloc_eq_some.mp hstep
    simp only [SavedPlacesBloc.step] at hbloc
    split at hbloc
    · cases hbloc
      exact h.frame rfl rfl rfl rfl rfl
    · cases hbloc
  | finish k =>
    obtain ⟨bloc, hbloc, rfl⟩ := inBloc_eq_some.mp hstep
    obtain ⟨load, due, -, -, -, rfl⟩ := hone.finish_cases hbloc
    have hsame : ∃ state, { s.bloc with waiting := [] }.finishLoad load =
        { s.bloc with waiting := [], state := state } := by
      unfold SavedPlacesBloc.finishLoad
      split
      · exact ⟨_, rfl⟩
      · exact ⟨s.bloc.state, rfl⟩
    obtain ⟨state, hsame⟩ := hsame
    rw [hsame]
    exact h.frame rfl rfl rfl rfl rfl

/-- What happens on the screen happens to the bloc, or leaves it as it
is. -/
theorem step_bloc {e : Happening} (hok : handledInTurn s e = true)
    (hstep : Screen.step s e = some s') :
    s'.bloc = s.bloc ∨ ∃ e', SavedPlacesBloc.oneByOne s.bloc e' = true ∧
      s.bloc.step e' = some s'.bloc := by
  have hin : ∀ {e'}, s.inBloc e' = some s' → s.bloc.step e' = some s'.bloc := by
    intro e' h
    obtain ⟨bloc, hbloc, rfl⟩ := inBloc_eq_some.mp h
    exact hbloc
  cases e with
  | put p d =>
    cases hstep
    exact .inl rfl
  | del p =>
    cases hstep
    exact .inl rfl
  | load placeList visited => exact .inr ⟨.load placeList visited, hok, hin hstep⟩
  | deliver q =>
    have h : s.deliver q = some s' := hstep
    unfold Screen.deliver at h
    split at h
    · next snap rest htake =>
      obtain ⟨bloc, hbloc, rfl⟩ := Option.map_eq_some_iff.mp h
      exact .inr ⟨.deliver q.1 snap, rfl, hbloc⟩
    · cases h
  | wait ms => exact .inr ⟨.wait ms, rfl, hin hstep⟩
  | finish k => exact .inr ⟨.finish k {}, rfl, hin hstep⟩

/-- Every run that keeps the promise watches its last load. -/
theorem seen_replay {docs : Docs} {es : List Happening}
    (h : Events.replay Screen.step keepsShown { docs := docs } es = some s) :
    Seen s ∧ s.bloc.OneWaiting ∧ s.bloc.Truthful := by
  have hall : (Sound s ∧ Current s) ∧ Seen s ∧ s.bloc.OneWaiting ∧ s.bloc.Truthful := by
    apply Events.replay_invariant (J := fun s => (Sound s ∧ Current s) ∧ Seen s ∧
      s.bloc.OneWaiting ∧ s.bloc.Truthful) h
    · exact ⟨current_empty docs, .inl ⟨rfl, rfl, rfl⟩, SavedPlacesBloc.oneWaiting_empty,
        SavedPlacesBloc.truthful_empty⟩
    · intro s e s' hs hok hstep
      obtain ⟨⟨hsound, hcurrent⟩, hseen, hone, htrue⟩ := hs
      refine ⟨current_step hsound hcurrent hstep, hseen.step hsound hone hok hstep, ?_⟩
      rcases step_bloc (Bool.and_eq_true_iff.mp hok).1 hstep with hsame | ⟨e', hok', hstep'⟩
      · rw [hsame]
        exact ⟨hone, htrue⟩
      · exact ⟨hone.step hok' hstep', htrue.step hstep'⟩
  exact hall.2

end Screen

end GottaGo
