/-
GottaGo.Home.Lists — the home stream shows the lists of the user.

`getPlaceLists` switches to a new combination of list streams with every
snapshot of the user's document that it can read. `home_follows`: since
the last such snapshot, every value names exactly its lists, in order;
and once each of them has yielded a list, the last value has the latest
of each.

A snapshot of the user's document that cannot be read (the document is
deleted with the account) is an error of the stream and leaves the
combination before it running: `home_shows_unnamed_lists`.
-/
import GottaGo.Membership.Agreement
import GottaGo.Model.DocumentsTheorems
import GottaGo.Repository.Streams

namespace GottaGo

open GottaGo.Firestore GottaGo.Rx GottaGo.PlaceListRepository

/-- No user can be read from the snapshots of the user's document. -/
def NoUserRead (uid : String) (events : List HomeEvent) : Prop :=
  ∀ snap, .inl snap ∈ events → ∀ user, User.fromSnapshot uid snap ≠ .ok user

theorem NoUserRead.unswitched {uid : String} {events : List HomeEvent}
    (h : NoUserRead uid events) : Unswitched (placeListStreams uid) events := by
  intro snap hsnap l hl
  obtain ⟨user, _, huser, -, -⟩ := placeListStreams_eq_ok.mp hl
  exact h snap hsnap user huser

/-- Since a user was read, the stream is the combination of their list
streams. -/
theorem values_getPlaceLists {firebaseUser : AuthUser} {snap : Option Doc} {user : User}
    {ids : List String} {post : List HomeEvent}
    (huser : User.fromSnapshot firebaseUser.uid snap = .ok user)
    (hids : user.placeListIds = some ids) (hpost : NoUserRead firebaseUser.uid post)
    (s : Option (Latest String PlaceList)) :
    values ((getPlaceLists firebaseUser).emits s (.inl snap :: post)) =
      values ((combineLatestList PlaceList.fromSnapshot).emits (Latest.opened ids)
        (inners post)) := by
  have hopen : placeListStreams firebaseUser.uid snap = .ok (Latest.opened ids) :=
    placeListStreams_eq_ok.mpr ⟨user, ids, huser, hids, rfl⟩
  exact values_emits_switchMap hopen hpost.unswitched s

/-- Once each list has yielded a document that can be read, the lists are
what the combination has let out last. -/
theorem getLast?_combined {ids : List String} (hids : ids ≠ [])
    {events : List (String × Option Doc)} {lists : String → PlaceList}
    (hlists : ∀ id ∈ ids, ∃ snap, yielded id events = some snap ∧
      PlaceList.fromSnapshot id snap = .ok (lists id)) :
    (values ((combineLatestList PlaceList.fromSnapshot).emits (Latest.opened ids)
      events)).getLast? = some (ids.map lists) := by
  apply getLast?_emits hids
  rw [Latest.combined_eq_some, after_opened]
  simp only [List.map_map]
  apply List.map_congr_left
  intro id hid
  obtain ⟨snap, hsnap, hread⟩ := hlists id hid
  exact kept_of_yielded hsnap hread

/-- What the combination lets out are the lists it listens to. -/
theorem placeListIds_combined {ids : List String} {events : List (String × Option Doc)}
    {shown : List PlaceList}
    (h : shown ∈ values ((combineLatestList PlaceList.fromSnapshot).emits
      (Latest.opened ids) events)) :
    shown.map (fun l => l.placeListId) = ids.map some := by
  have howned := emits_owned (P := fun id l => l.placeListId = some id)
    (fun _ _ _ hread => (PlaceList.fromSnapshot_ok hread).1) ids shown h
  clear h
  induction howned with
  | nil => rfl
  | cons hid _ ih => simp [hid, ih]

/-- Since the last snapshot of the user's document that can be read, the
values are lists that it names, all of them and in its order; and the last
value has the latest of each once each has yielded one. -/
theorem home_follows (firebaseUser : AuthUser) (pre post : List HomeEvent)
    (snap : Option Doc) (user : User) (ids : List String)
    (huser : User.fromSnapshot firebaseUser.uid snap = .ok user)
    (hids : user.placeListIds = some ids) (hpost : NoUserRead firebaseUser.uid post) :
    (∀ lists : String → PlaceList, ids ≠ [] →
      (∀ id ∈ ids, ∃ listSnap, yielded id (inners post) = some listSnap ∧
        PlaceList.fromSnapshot id listSnap = .ok (lists id)) →
      (values ((getPlaceLists firebaseUser).emits none
        (pre ++ .inl snap :: post))).getLast? = some (ids.map lists)) ∧
    ∀ shown ∈ values ((getPlaceLists firebaseUser).emits
        ((getPlaceLists firebaseUser).after none pre) (.inl snap :: post)),
      shown.map (fun l => l.placeListId) = ids.map some := by
  constructor
  · intro lists hne hlists
    rw [Machine.emits_append, values_append, List.getLast?_append,
      values_getPlaceLists huser hids hpost, getLast?_combined hne hlists]
    rfl
  · intro shown hshown
    rw [values_getPlaceLists huser hids hpost] at hshown
    exact placeListIds_combined hshown

/-- `ada` drops a list and gets another one; the list she keeps is renamed
before it is shown. -/
theorem home_follows_ada :
    ∃ lists : String → PlaceList,
      (values ((getPlaceLists { uid := "ada" }).emits none
        [.inl (some (userDoc "ada" ["oslo", "rome"])), .inr ("oslo", some (listDoc "ada" [])),
          .inl (some (userDoc "ada" ["rome", "bern"])), .inr ("bern", some (listDoc "ada" [])),
          .inr ("oslo", some (listDoc "ada" [])), .inr ("rome", some (listDoc "ada" [])),
          .inr ("rome", some (listDoc "ada" ["bob"]))])).getLast? =
        some (["rome", "bern"].map lists) ∧
      (lists "rome").contributorIds = some ["bob"] := by
  let lists : String → PlaceList := fun id =>
    { placeListId := some id, name := "Rome", listOwnerId := "ada", icon := []
      placeCount := 0, contributorIds := some (if id = "rome" then ["bob"] else []) }
  let user : User :=
    { id := some "ada", userName := some "ada", name := some "ada"
      profilePicture := some "", placeListIds := some ["rome", "bern"] }
  have huser : User.fromSnapshot "ada" (some (userDoc "ada" ["rome", "bern"])) = .ok user :=
    User.fromSnapshot_toDocument (u := user) rfl rfl
  have hpost : NoUserRead "ada"
      [.inr ("bern", some (listDoc "ada" [])), .inr ("oslo", some (listDoc "ada" [])),
        .inr ("rome", some (listDoc "ada" [])), .inr ("rome", some (listDoc "ada" ["bob"]))] := by
    simp [NoUserRead]
  have hfollows := (home_follows { uid := "ada" }
    [.inl (some (userDoc "ada" ["oslo", "rome"])), .inr ("oslo", some (listDoc "ada" []))]
    _ _ user _ huser rfl hpost).1 lists (by decide)
  refine ⟨lists, hfollows ?_, rfl⟩
  intro id hid
  simp only [List.mem_cons, List.not_mem_nil, or_false] at hid
  rcases hid with rfl | rfl
  · exact ⟨some (listDoc "ada" ["bob"]), by decide, by rfl⟩
  · exact ⟨some (listDoc "ada" []), by decide, by rfl⟩

/-! ## A user that cannot be read -/

/-- The snapshot of the user's document names the list. -/
def SnapshotNames (snap : Option Doc) (placeListId : Option String) : Prop :=
  ∃ d ids, snap = some d ∧ d.get? "placeListIds" = some (.strs ids) ∧
    ∃ id ∈ ids, placeListId = some id

/-- `ada` deletes her account, and her list is shown once more when it
changes. -/
theorem home_shows_unnamed_lists :
    ¬ ∀ (firebaseUser : AuthUser) (pre post : List HomeEvent) (snap : Option Doc),
      (∀ snap', .inl snap' ∉ post) →
      ∀ shown ∈ values ((getPlaceLists firebaseUser).emits
          ((getPlaceLists firebaseUser).after none (pre ++ [.inl snap])) post),
        ∀ l ∈ shown, SnapshotNames snap l.placeListId := by
  intro hclaim
  let rome : PlaceList :=
    { placeListId := some "rome", name := "Rome", listOwnerId := "ada", icon := []
      placeCount := 0, contributorIds := some [] }
  have hshown : [rome] ∈ values ((getPlaceLists { uid := "ada" }).emits
      ((getPlaceLists { uid := "ada" }).after none
        ([.inl (some (userDoc "ada" ["rome"]))] ++ [.inl none]))
      [.inr ("rome", some (listDoc "ada" []))]) := by
    exact List.mem_singleton.mpr rfl
  obtain ⟨d, ids, hnone, -⟩ := hclaim _ _ _ none (by simp) _ hshown rome
    List.mem_cons_self
  cases hnone

end GottaGo
