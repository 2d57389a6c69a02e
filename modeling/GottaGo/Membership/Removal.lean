/-
GottaGo.Membership.Removal — what `removePlaceList` leaves behind.

`removePlaceList_eval` gives the documents after a removal that no write
of fails: the caller loses the list, and if the caller is the owner the
list's document is deleted. Nothing is done about the other members of
the list, nor about the places below it, and a contributor who leaves
stays in the list's `contributorIds`.

So a removal keeps a sound store sound exactly when it has nothing to
clean up (`removePlaceList_sound_iff`): the caller is the owner and the
only member, and the list is empty. `removePlaceList_dangling` is a list
with one contributor, who is left with an id that names nothing.
-/
import GottaGo.Bloc.Handlers
import GottaGo.Membership.Agreement

namespace GottaGo

open GottaGo.Async GottaGo.Firestore

/-- No place and no visited place lies below the list. -/
def NoPlaces (s : Store Path) (l : String) : Prop :=
  ∀ p, s.get (.places l p) = none ∧ s.get (.visitedPlaces l p) = none

/-- The caller's half of a removal. -/
def leaveWrite (uid l : String) : Write Path :=
  .update (.users uid) [("placeListIds", .arrayRemove [.str l])]

/-- The documents after a removal that runs to its end. -/
theorem removePlaceList_eval {st : AppState} {firebaseUser : AuthUser}
    {placeList : PlaceList} {l : String} {s₁ : Store Path}
    (hid : placeList.placeListId = some l)
    (hleave : (leaveWrite firebaseUser.uid l).apply st.store = some s₁) :
    ∃ st', Prog.eval (serve {})
        (PlaceListRepository.removePlaceList firebaseUser placeList) st = (.ok (), st') ∧
      st'.store = if placeList.listOwnerId = firebaseUser.uid
        then s₁.del (.placeLists l) else s₁ := by
  have hupdate := eval_update st _ hleave
  by_cases howner : placeList.listOwnerId = firebaseUser.uid
  · refine ⟨(st.commit (leaveWrite firebaseUser.uid l) s₁).commit
      (.delete (.placeLists l)) (s₁.del (.placeLists l)), ?_, ?_⟩
    · rw [PlaceListRepository.removePlaceList, eval_rethrowing_eq_ok]
      simp only [hid, Value.ofString?, Prog.bind_eq, Prog.eval_bind, hupdate]
      simp [howner, leaveWrite]
    · rw [if_pos howner]
      rfl
  · refine ⟨st.commit (leaveWrite firebaseUser.uid l) s₁, ?_, ?_⟩
    · rw [PlaceListRepository.removePlaceList, eval_rethrowing_eq_ok]
      simp only [hid, Value.ofString?, Prog.bind_eq, Prog.eval_bind, hupdate]
      simp [howner, leaveWrite]
    · rw [if_neg howner]
      rfl

section Sound

variable {s s₁ : Store Path} {u l : String}

/-- A user who has a list can leave it. -/
theorem leaveWrite_applies (h : HasList s u l) :
    ∃ s₁, (leaveWrite u l).apply s = some s₁ := by
  obtain ⟨d, hd⟩ := Option.ne_none_iff_exists'.mp (Store.get_ne_none_of_mem h)
  exact ⟨_, Write.apply_update_of_get hd⟩

/-- Leaving a list that still names the user makes the two sides differ. -/
theorem not_agree_leave (hn : Names s l u) (h : (leaveWrite u l).apply s = some s₁) :
    ¬ Agree s₁ := by
  intro hagree
  have hnames : Names s₁ l u := (names_of_user_write h rfl l u).mpr hn
  have hgone : ¬ HasList s₁ u l := fun hl =>
    ((hasList_arrayRemove h u l).mp hl).2 ⟨rfl, rfl⟩
  exact hgone ((hagree u l).mpr hnames)

/-- After the owner has left and deleted the list, the two sides agree
just when the list named nobody else. -/
theorem agree_delete_iff (hs : Agree s) (h : (leaveWrite u l).apply s = some s₁) :
    Agree (s₁.del (.placeLists l)) ↔ ∀ v, Names s l v → v = u := by
  have hhas : ∀ v k, HasList (s₁.del (.placeLists l)) v k ↔
      HasList s v k ∧ ¬ (v = u ∧ k = l) := by
    intro v k
    rw [hasList_of_list_write (Write.apply_delete s₁ _) rfl, hasList_arrayRemove h]
  have hnames : ∀ k v, Names (s₁.del (.placeLists l)) k v ↔ Names s k v ∧ k ≠ l := by
    intro k v
    rw [names_delete, names_of_user_write h rfl]
  constructor
  · intro hagree v hv
    by_contra hne
    have hv' : HasList (s₁.del (.placeLists l)) v l :=
      (hhas v l).mpr ⟨(hs v l).mpr hv, fun hvl => hne hvl.1⟩
    exact ((hnames l v).mp ((hagree v l).mp hv')).2 rfl
  · intro honly v k
    rw [hhas, hnames, hs v k]
    constructor
    · intro hx
      obtain ⟨hv, hnot⟩ := hx
      refine ⟨hv, ?_⟩
      rintro rfl
      exact hnot ⟨honly v hv, rfl⟩
    · intro hx
      obtain ⟨hv, hne⟩ := hx
      exact ⟨hv, fun hvl => hne hvl.2⟩

/-- After the owner has left and deleted the list, no place hangs below
a list that is gone just when none hung below this one. -/
theorem placesUnderLists_delete_iff (hs : PlacesUnderLists s)
    (h : (leaveWrite u l).apply s = some s₁) :
    PlacesUnderLists (s₁.del (.placeLists l)) ↔ NoPlaces s l := by
  have hget : ∀ p, p ≠ .placeLists l → p ≠ .users u →
      (s₁.del (.placeLists l)).get p = s.get p := by
    intro p hl hu
    rw [Store.get_del_of_ne s₁ hl, Write.get_of_ne h hu]
  have hplaces : ∀ k p, (s₁.del (.placeLists l)).get (.places k p) = s.get (.places k p) :=
    fun k p => hget _ Path.noConfusion Path.noConfusion
  have hvisited : ∀ k p,
      (s₁.del (.placeLists l)).get (.visitedPlaces k p) = s.get (.visitedPlaces k p) :=
    fun k p => hget _ Path.noConfusion Path.noConfusion
  constructor
  · intro hunder p
    have hgone := s₁.get_del_self (.placeLists l)
    have hnot := mt (hunder l p) (by rw [hgone]; simp)
    rw [hplaces, hvisited, not_or] at hnot
    simpa using hnot
  · intro hnone k p hkp
    rw [hplaces, hvisited] at hkp
    by_cases hk : k = l
    · subst hk
      rw [(hnone p).1, (hnone p).2] at hkp
      simp at hkp
    · have hne : Path.placeLists k ≠ .placeLists l := by simpa using hk
      rw [hget _ hne Path.noConfusion]
      exact hs k p hkp

end Sound

/-- A removal by a member always completes, and it keeps the store sound
just when the caller is the owner, nobody else contributes and no place
lies below the list. -/
theorem removePlaceList_sound_iff (st : AppState) (firebaseUser : AuthUser)
    (placeList : PlaceList) {l : String} (hs : Sound st.store)
    (hid : placeList.placeListId = some l)
    (howner : st.store.field (.placeLists l) "listOwnerId" =
      some (.str placeList.listOwnerId))
    (hmember : Names st.store l firebaseUser.uid) :
    ∃ st', Prog.eval (serve {})
        (PlaceListRepository.removePlaceList firebaseUser placeList) st = (.ok (), st') ∧
      (Sound st'.store ↔
        placeList.listOwnerId = firebaseUser.uid ∧
          (∀ u, Contributes st.store l u → u = firebaseUser.uid) ∧
          NoPlaces st.store l) := by
  obtain ⟨hagree, hunder⟩ := hs
  obtain ⟨s₁, hleave⟩ := leaveWrite_applies ((hagree _ _).mpr hmember)
  obtain ⟨st', heval, hstore⟩ := removePlaceList_eval hid hleave
  refine ⟨st', heval, ?_⟩
  rw [hstore]
  by_cases hown : placeList.listOwnerId = firebaseUser.uid
  · have honly : (∀ v, Names st.store l v → v = firebaseUser.uid) ↔
        ∀ u, Contributes st.store l u → u = firebaseUser.uid := by
      constructor
      · intro h u hu
        exact h u ⟨hmember.1, .inr hu⟩
      · rintro h v ⟨-, hv | hv⟩
        · rw [howner] at hv
          cases hv
          exact hown
        · exact h v hv
    rw [if_pos hown, Sound, agree_delete_iff hagree hleave,
      placesUnderLists_delete_iff hunder hleave, honly]
    simp [hown]
  · rw [if_neg hown]
    constructor
    · intro hsound
      exact absurd hsound.1 (not_agree_leave hmember hleave)
    · intro h
      exact absurd h.1 hown

/-- A list that `ada` owns and shares with the given contributors, each of
whom has it. -/
def sharedList (contributorIds : List String) : Store Path :=
  .ofList ((.placeLists "rome", listDoc "ada" contributorIds) ::
    ("ada" :: contributorIds).map fun uid => (.users uid, userDoc uid ["rome"]))

/-- `sharedList` as its owner's app reads it. -/
def sharedPlaceList (contributorIds : List String) : PlaceList where
  placeListId := some "rome"
  name := "Rome"
  listOwnerId := "ada"
  icon := []
  placeCount := 0
  contributorIds := some contributorIds

theorem sharedList_get_users (ids : List String) (u : String) :
    (sharedList ids).get (.users u) =
      if u ∈ "ada" :: ids then some (userDoc u ["rome"]) else none := by
  rw [sharedList, Store.get_ofList_cons, if_neg Path.noConfusion]
  induction "ada" :: ids with
  | nil => rfl
  | cons v vs ih =>
    rw [List.map_cons, Store.get_ofList_cons, ih]
    by_cases hv : u = v <;> simp [hv]

theorem sharedList_get_of_ne (ids : List String) {p : Path}
    (hl : p ≠ .placeLists "rome") (hu : ∀ u, p ≠ .users u) :
    (sharedList ids).get p = none := by
  rw [sharedList, Store.get_ofList_cons, if_neg hl]
  induction "ada" :: ids with
  | nil => rfl
  | cons v vs ih => rw [List.map_cons, Store.get_ofList_cons, if_neg (hu v), ih]

theorem sharedList_get_list (ids : List String) :
    (sharedList ids).get (.placeLists "rome") = some (listDoc "ada" ids) := by
  rw [sharedList, Store.get_ofList_cons, if_pos rfl]

theorem contributes_sharedList (ids : List String) (u : String) :
    Contributes (sharedList ids) "rome" u ↔ u ∈ ids := by
  rw [Contributes, Store.elemsAt_eq (sharedList_get_list ids)]
  simp [Value.strs]

theorem sound_sharedList (ids : List String) : Sound (sharedList ids) := by
  constructor
  · intro u l
    have hhas : HasList (sharedList ids) u l ↔ u ∈ "ada" :: ids ∧ l = "rome" := by
      rw [HasList, Store.elemsAt, Store.field, sharedList_get_users]
      by_cases hu : u ∈ "ada" :: ids <;> simp [hu, Value.strs]
    by_cases hl : l = "rome"
    · subst hl
      rw [hhas, Names, contributes_sharedList, Store.field_eq (sharedList_get_list ids)]
      simp [sharedList_get_list, @eq_comm _ "ada"]
    · have hnone := sharedList_get_of_ne ids (p := .placeLists l) (by simpa using hl)
          (fun u => Path.noConfusion)
      rw [hhas, Names, hnone]
      simp [hl]
  · intro l p h
    rw [sharedList_get_of_ne ids Path.noConfusion fun u => Path.noConfusion,
      sharedList_get_of_ne ids Path.noConfusion fun u => Path.noConfusion] at h
    simp at h

theorem removePlaceList_sound_alone :
    ∃ st', Prog.eval (serve {}) (PlaceListRepository.removePlaceList { uid := "ada" }
        (sharedPlaceList [])) { store := sharedList [] } = (.ok (), st') ∧
      Sound st'.store := by
  obtain ⟨st', heval, hiff⟩ := removePlaceList_sound_iff
    { store := sharedList [] } { uid := "ada" } (sharedPlaceList [])
    (sound_sharedList []) rfl (by decide) (by decide)
  refine ⟨st', heval, hiff.mpr ⟨rfl, ?_, ?_⟩⟩
  · intro u hu
    exact absurd ((contributes_sharedList [] u).mp hu) List.not_mem_nil
  · intro p
    constructor <;> rfl

/-- The owner removes a list that `bob` contributes to: `bob` is left with
the id of a list that is gone. -/
theorem removePlaceList_dangling :
    ¬ ∀ (st st' : AppState) (firebaseUser : AuthUser) (placeList : PlaceList)
        (l : String), Sound st.store → placeList.placeListId = some l →
      st.store.field (.placeLists l) "listOwnerId" =
        some (.str placeList.listOwnerId) →
      Names st.store l firebaseUser.uid →
      Prog.eval (serve {})
        (PlaceListRepository.removePlaceList firebaseUser placeList) st = (.ok (), st') →
      Sound st'.store := by
  intro h
  have hsound := h { store := sharedList ["bob"] } _ { uid := "ada" }
    (sharedPlaceList ["bob"]) "rome" (sound_sharedList ["bob"]) rfl (by decide)
    (by decide) rfl
  have hhas := (hsound.1 "bob" "rome").mp (by decide)
  exact absurd hhas (by decide)

end GottaGo
