/-
GottaGo.Home.Missing — lists that are named but no longer there.

`SavedListsBloc` reads the lists one after the other, and the home page
listens to their combination. One deleted document stops both:
`PlaceList.fromSnapshot` throws at its first field, which ends the loop
and with it the handler, and a stream that only yields errors holds the
combination back. Without any list there is nothing to combine, and
nothing is let out either. `shows_existing_iff`: both ways show the lists
that exist just when some list is named and every list named exists.
-/
import GottaGo.Bloc.SavedLists
import GottaGo.Home.Lists

namespace GottaGo

open GottaGo.Async GottaGo.Firestore GottaGo.Rx GottaGo.PlaceListRepository

/-- The list read from its document. -/
def listAt (s : Store Path) (placeListId : String) : Except Err PlaceList :=
  PlaceList.fromSnapshot placeListId (s.get (.placeLists placeListId))

/-- The lists that exist, in the order of the ids. -/
def existingLists (s : Store Path) (placeListIds : List String) : List PlaceList :=
  placeListIds.filterMap fun id => (listAt s id).toOption

/-- The documents that exist can be read. -/
def ReadsSucceed (s : Store Path) (placeListIds : List String) : Prop :=
  ∀ id ∈ placeListIds, s.get (.placeLists id) = none ∨ ∃ l, listAt s id = .ok l

variable {s : Store Path} {ids : List String}

theorem listAt_of_missing {id : String} (h : s.get (.placeLists id) = none) :
    listAt s id = .error .stateError := by
  rw [listAt, h]
  rfl

/-- A list can be read just when it exists. -/
theorem ReadsSucceed.isOk_iff (h : ReadsSucceed s ids) {id : String} (hid : id ∈ ids) :
    (∃ l, listAt s id = .ok l) ↔ s.get (.placeLists id) ≠ none := by
  constructor
  · intro hok hnone
    obtain ⟨l, hl⟩ := hok
    rw [listAt_of_missing hnone] at hl
    cases hl
  · intro hne
    exact (h id hid).resolve_left hne

theorem existingLists_eq_map {lists : String → PlaceList}
    (h : ∀ id ∈ ids, listAt s id = .ok (lists id)) : existingLists s ids = ids.map lists := by
  induction ids with
  | nil => rfl
  | cons id ids ih =>
    rw [List.forall_mem_cons] at h
    have hhead : (listAt s id).toOption = some (lists id) := by
      rw [h.1]
      rfl
    have htail : existingLists s ids = ids.map lists := ih h.2
    rw [existingLists] at htail ⊢
    simp [hhead, htail]

/-! ## The loop -/

/-- The loop ends with the first exception, or with all the lists. -/
theorem eval_readLists (ids : List String) (st : AppState) :
    Prog.eval (serve {}) (getMyPlaceListsFuture.readLists ids) st =
      (ids.mapM (listAt st.store), st) := by
  induction ids with
  | nil => rfl
  | cons id ids ih =>
    rw [List.mapM_cons]
    simp only [getMyPlaceListsFuture.readLists, Prog.bind_eq, Prog.eval_bind, eval_get,
      Prog.eval_ofExcept]
    rw [show PlaceList.fromSnapshot id (st.store.get (.placeLists id)) =
      listAt st.store id from rfl]
    cases listAt st.store id with
    | error e => rfl
    | ok l =>
      simp only [ih]
      cases ids.mapM (listAt st.store) <;> rfl

/-- All of the lists are read just when all of them exist. -/
theorem ReadsSucceed.mapM_eq_ok (h : ReadsSucceed s ids) (lists : List PlaceList) :
    ids.mapM (listAt s) = .ok lists ↔
      (∀ id ∈ ids, s.get (.placeLists id) ≠ none) ∧ lists = existingLists s ids := by
  induction ids generalizing lists with
  | nil => simp [existingLists, pure, Except.pure, eq_comm]
  | cons id ids ih =>
    have htail : ReadsSucceed s ids := fun i hi => h i (List.mem_cons_of_mem _ hi)
    rw [List.mapM_cons, List.forall_mem_cons, ← h.isOk_iff List.mem_cons_self]
    cases hid : listAt s id with
    | error e => simp [bind, Except.bind]
    | ok l =>
      have hcons : existingLists s (id :: ids) = l :: existingLists s ids := by
        simp [existingLists, hid, Except.toOption]
      rw [hcons]
      cases hids : ids.mapM (listAt s) with
      | error e =>
        have hnot := (not_congr (ih htail (existingLists s ids))).mp (by simp [hids])
        simp only [and_true] at hnot
        simp [bind, Except.bind, hnot]
      | ok ls =>
        obtain ⟨hall, rfl⟩ := (ih htail ls).mp hids
        constructor
        · intro heq
          cases heq
          exact ⟨⟨⟨l, rfl⟩, hall⟩, rfl⟩
        · intro hboth
          rw [hboth.2]
          rfl

/-- `getMyPlaceListsFuture` returns just when none of the lists is missing,
and then it returns those that exist. -/
theorem eval_getMyPlaceListsFuture {user : User} {st : AppState}
    {answer : Option (List PlaceList)} (hids : user.placeListIds = some ids)
    (h : ReadsSucceed st.store ids) :
    (Prog.eval (serve {}) (getMyPlaceListsFuture user) st).1 = .ok answer ↔
      (∀ id ∈ ids, st.store.get (.placeLists id) ≠ none) ∧
        answer = if ids = [] then none else some (existingLists st.store ids) := by
  have hok : ∀ {α : Type} {r : Except Err α × AppState} {a : α},
      r.1 = .ok a ↔ ∃ st', r = (.ok a, st') := by
    intro α r a
    constructor
    · intro hr
      exact ⟨r.2, Prod.ext hr rfl⟩
    · intro hr
      obtain ⟨st', rfl⟩ := hr
      rfl
  rw [hok]
  simp only [getMyPlaceListsFuture, eval_rethrowing_eq_ok, hids]
  by_cases hnil : ids = []
  · subst hnil
    simp [eq_comm]
  · simp only [if_neg hnil, Prog.bind_eq, Prog.eval_bind, eval_readLists]
    cases hread : ids.mapM (listAt st.store) with
    | error e =>
      have hnot := (not_congr (h.mapM_eq_ok (existingLists st.store ids))).mp
        (by simp [hread])
      simp only [and_true] at hnot
      simp [hnot]
    | ok lists =>
      obtain ⟨hall, rfl⟩ := (h.mapM_eq_ok lists).mp hread
      constructor
      · intro hex
        obtain ⟨st', heq⟩ := hex
        cases heq
        exact ⟨hall, rfl⟩
      · intro hboth
        rw [hboth.2]
        exact ⟨st, rfl⟩

/-! ## The handler -/

/-- The handler of `LoadSavedLists` ends with the existing lists. -/
def LoadsExisting (firebaseUser : AuthUser) (bloc : SavedListsBloc) (user : User)
    (st : AppState) (ids : List String) : Prop :=
  let ended := bloc.onLoadSavedLists firebaseUser
    (Prog.eval (serve {}) (getMyPlaceListsFuture user) st).1
  ended.state = .loaded (some (getPlaceLists firebaseUser)) ∧
    ended.myPlaceLists = existingLists st.store ids

theorem loadsExisting_iff {firebaseUser : AuthUser} {bloc : SavedListsBloc} {user : User}
    {st : AppState} (hids : user.placeListIds = some ids) (h : ReadsSucceed st.store ids) :
    LoadsExisting firebaseUser bloc user st ids ↔
      ∀ id ∈ ids, st.store.get (.placeLists id) ≠ none := by
  unfold LoadsExisting
  cases hanswer : (Prog.eval (serve {}) (getMyPlaceListsFuture user) st).1 with
  | error e =>
    constructor
    · intro hloaded
      -- the handler has stopped at its await
      have hkind := congrArg SavedListsState.kind hloaded.1
      simp [SavedListsBloc.onLoadSavedLists, SavedListsState.loaded] at hkind
    · intro hall
      rw [(eval_getMyPlaceListsFuture hids h).mpr ⟨hall, rfl⟩] at hanswer
      cases hanswer
  | ok answer =>
    obtain ⟨hall, rfl⟩ := (eval_getMyPlaceListsFuture hids h).mp hanswer
    have hlists : (if ids = [] then none else some (existingLists st.store ids)).getD [] =
        existingLists st.store ids := by
      by_cases hnil : ids = [] <;> simp [hnil, existingLists]
    simp only [SavedListsBloc.onLoadSavedLists, SavedListsBloc.finishLoad_state,
      SavedListsBloc.finishLoad_myPlaceLists, SavedListsBloc.beginLoad_placeListsStream,
      hlists, and_self, true_iff]
    exact hall

/-! ## The stream -/

/-- Every list named has had its snapshot of the database, and nothing
else has been delivered. -/
structure Delivered (s : Store Path) (ids : List String) (events : List HomeEvent) :
    Prop where
  noUser : ∀ snap, .inl snap ∉ events
  current : ∀ id snap, .inr (id, snap) ∈ events → snap = s.get (.placeLists id)
  all : ∀ id ∈ ids, ∃ snap, .inr (id, snap) ∈ events

theorem Delivered.yielded {events : List HomeEvent} (h : Delivered s ids events)
    {id : String} (hid : id ∈ ids) :
    yielded id (inners events) = some (s.get (.placeLists id)) := by
  obtain ⟨snap, hsnap⟩ := h.all id hid
  have hcur := h.current id snap hsnap
  subst hcur
  exact yielded_of_forall (mem_inners.mpr hsnap)
    fun snap' hsnap' => h.current id snap' (mem_inners.mp hsnap')

/-- The stream has let out the existing lists last. -/
def EmitsExisting (firebaseUser : AuthUser) (st : AppState) (ids : List String)
    (pre post : List HomeEvent) : Prop :=
  (values ((getPlaceLists firebaseUser).emits ((getPlaceLists firebaseUser).after none pre)
      (.inl (st.store.get (.users firebaseUser.uid)) :: post))).getLast? =
    some (existingLists st.store ids)

theorem emitsExisting_iff {firebaseUser : AuthUser} {st : AppState} {user : User}
    {pre post : List HomeEvent}
    (huser : User.fromSnapshot firebaseUser.uid
      (st.store.get (.users firebaseUser.uid)) = .ok user)
    (hids : user.placeListIds = some ids) (h : ReadsSucceed st.store ids)
    (hpost : Delivered st.store ids post) :
    EmitsExisting firebaseUser st ids pre post ↔
      ids ≠ [] ∧ ∀ id ∈ ids, st.store.get (.placeLists id) ≠ none := by
  have hnoUser : NoUserRead firebaseUser.uid post :=
    fun snap hsnap => absurd hsnap (hpost.noUser snap)
  unfold EmitsExisting
  rw [values_getPlaceLists huser hids hnoUser]
  constructor
  · intro hlast
    constructor
    · intro hnil
      rw [hnil, values_emits_opened_nil] at hlast
      cases hlast
    · intro id hid hnone
      -- the stream of a missing document yields errors only
      rw [values_emits_eq_nil hid] at hlast
      · cases hlast
      · intro snap hsnap l hl
        rw [hpost.current id snap (mem_inners.mp hsnap), hnone] at hl
        cases hl
  · intro hall
    obtain ⟨hne, hall⟩ := hall
    have hnonempty : Nonempty PlaceList :=
      ⟨{ name := "", listOwnerId := "", icon := [], placeCount := 0 }⟩
    choose! lists hlists using fun id hid => (h.isOk_iff hid).mpr (hall id hid)
    rw [existingLists_eq_map hlists]
    apply getLast?_combined hne
    intro id hid
    exact ⟨_, hpost.yielded hid, hlists id hid⟩

/-- Both ways of showing the lists show those that exist. -/
def ShowsExisting (firebaseUser : AuthUser) (bloc : SavedListsBloc) (user : User)
    (st : AppState) (ids : List String) (pre post : List HomeEvent) : Prop :=
  LoadsExisting firebaseUser bloc user st ids ∧ EmitsExisting firebaseUser st ids pre post

/-- The handler and the stream show the lists that exist just when the user
has a list and none of the lists is missing. -/
theorem shows_existing_iff (firebaseUser : AuthUser) (bloc : SavedListsBloc) (user : User)
    (st : AppState) (ids : List String) (pre post : List HomeEvent)
    (huser : User.fromSnapshot firebaseUser.uid
      (st.store.get (.users firebaseUser.uid)) = .ok user)
    (hids : user.placeListIds = some ids) (h : ReadsSucceed st.store ids)
    (hpost : Delivered st.store ids post) :
    ShowsExisting firebaseUser bloc user st ids pre post ↔
      ids ≠ [] ∧ ∀ id ∈ ids, st.store.get (.placeLists id) ≠ none := by
  unfold ShowsExisting
  rw [loadsExisting_iff hids h, emitsExisting_iff huser hids h hpost]
  constructor
  · intro hboth
    exact hboth.2
  · intro hall
    exact ⟨hall.2, hall⟩

/-- `ada` has two lists; the documents given are the ones that exist. -/
def adasLists (lists : List (Path × Doc)) : AppState where
  store := .ofList ((.users "ada", userDoc "ada" ["rome", "oslo"]) :: lists)

/-- The profile of `ada`. -/
def ada (placeListIds : List String) : User where
  id := some "ada"
  userName := some "ada"
  name := some "ada"
  profilePicture := some ""
  placeListIds := some placeListIds

theorem shows_existing_both :
    ShowsExisting { uid := "ada" } {} (ada ["rome", "oslo"])
      (adasLists [(.placeLists "rome", listDoc "ada" []),
        (.placeLists "oslo", listDoc "ada" ["bob"])]) ["rome", "oslo"] []
      [.inr ("oslo", some (listDoc "ada" ["bob"])), .inr ("rome", some (listDoc "ada" []))] := by
  let st := adasLists [(.placeLists "rome", listDoc "ada" []),
    (.placeLists "oslo", listDoc "ada" ["bob"])]
  have hdoc : st.store.get (.users "ada") = some (userDoc "ada" ["rome", "oslo"]) := by
    decide
  have huser : User.fromSnapshot "ada" (st.store.get (.users "ada")) =
      .ok (ada ["rome", "oslo"]) := by
    rw [hdoc]
    exact User.fromSnapshot_toDocument (u := ada ["rome", "oslo"]) rfl rfl
  have hrome : st.store.get (.placeLists "rome") = some (listDoc "ada" []) := by decide
  have hoslo : st.store.get (.placeLists "oslo") = some (listDoc "ada" ["bob"]) := by decide
  have hreads : ReadsSucceed st.store ["rome", "oslo"] := by
    intro id hid
    simp only [List.mem_cons, List.not_mem_nil, or_false] at hid
    rcases hid with rfl | rfl
    · exact .inr ⟨_, by rw [listAt, hrome]; rfl⟩
    · exact .inr ⟨_, by rw [listAt, hoslo]; rfl⟩
  have hpost : Delivered st.store ["rome", "oslo"]
      [.inr ("oslo", some (listDoc "ada" ["bob"])),
        .inr ("rome", some (listDoc "ada" []))] := by
    refine ⟨by simp, ?_, ?_⟩
    · intro id snap hmem
      simp only [List.mem_cons, List.not_mem_nil, or_false, Sum.inr.injEq,
        Prod.mk.injEq] at hmem
      rcases hmem with ⟨rfl, rfl⟩ | ⟨rfl, rfl⟩
      · exact hoslo.symm
      · exact hrome.symm
    · intro id hid
      simp only [List.mem_cons, List.not_mem_nil, or_false] at hid
      rcases hid with rfl | rfl
      · exact ⟨_, List.mem_cons_of_mem _ List.mem_cons_self⟩
      · exact ⟨_, List.mem_cons_self⟩
  exact (shows_existing_iff { uid := "ada" } {} (ada ["rome", "oslo"]) st _ [] _ huser rfl
    hreads hpost).mpr ⟨by decide, by decide⟩

/-- `oslo` has been deleted: the handler stops, and the stream shows
nothing of `rome`. -/
theorem missing_list_hides_others :
    ¬ ShowsExisting { uid := "ada" } {} (ada ["rome", "oslo"])
      (adasLists [(.placeLists "rome", listDoc "ada" [])]) ["rome", "oslo"] []
      [.inr ("rome", some (listDoc "ada" [])), .inr ("oslo", none)] := by
  intro hclaim
  have hkind := congrArg SavedListsState.kind hclaim.1.1
  revert hkind
  decide

end GottaGo
