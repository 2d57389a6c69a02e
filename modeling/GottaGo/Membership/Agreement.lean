/-
GottaGo.Membership.Agreement — who is in which list, as the two sides of
the store record it, and what each membership write does to either side.

`HasList s u l` is the user's side: `l` is in `users[u].placeListIds`.
`Names s l u` is the list's side: `place_lists[l]` exists and `u` is its
`listOwnerId` or in its `contributorIds`. `Agree` says that the two sides
are the same relation; `PlacesUnderLists` that no place hangs below a
list that is gone; `Sound` is both.

The lemmas are one per kind of write. The functions that issue these
writes are in `Repository/PlaceLists.lean`; the modules next to this one
only cite the lemmas.
-/
import GottaGo.Firestore.Store
import GottaGo.Model.DocumentsTheorems

namespace GottaGo

open GottaGo.Firestore

/-- `l` is in `users[u].placeListIds`. -/
def HasList (s : Store Path) (u l : String) : Prop :=
  .str l ∈ s.elemsAt (.users u) "placeListIds"

/-- `u` is in `place_lists[l].contributorIds`. -/
def Contributes (s : Store Path) (l u : String) : Prop :=
  .str u ∈ s.elemsAt (.placeLists l) "contributorIds"

/-- `place_lists[l]` exists and `u` is its owner or a contributor. -/
def Names (s : Store Path) (l u : String) : Prop :=
  (s.get (.placeLists l)).isSome ∧
    (s.field (.placeLists l) "listOwnerId" = some (.str u) ∨ Contributes s l u)

instance (s : Store Path) (u l : String) : Decidable (HasList s u l) :=
  inferInstanceAs (Decidable (_ ∈ _))

instance (s : Store Path) (l u : String) : Decidable (Contributes s l u) :=
  inferInstanceAs (Decidable (_ ∈ _))

instance (s : Store Path) (l u : String) : Decidable (Names s l u) :=
  inferInstanceAs (Decidable (_ ∧ _))

/-- The two sides of membership are the same relation. -/
def Agree (s : Store Path) : Prop := ∀ u l, HasList s u l ↔ Names s l u

/-- Every place and visited place lies below a list that exists. -/
def PlacesUnderLists (s : Store Path) : Prop :=
  ∀ l p, (s.get (.places l p)).isSome ∨ (s.get (.visitedPlaces l p)).isSome →
    (s.get (.placeLists l)).isSome

/-- The store is referentially sound. -/
def Sound (s : Store Path) : Prop := Agree s ∧ PlacesUnderLists s

/-! ## The writes of joining -/

/-- The user's half: list `id` is put in `users[uid].placeListIds`. -/
def linkOwnerWrite (uid id : String) : Write Path :=
  .update (.users uid) [("placeListIds", .arrayUnion [.str id])]

/-- The list's half: the user is put in the list's `contributorIds`. -/
def nameContributorWrite (placeListId userId : String) : Write Path :=
  .update (.placeLists placeListId) [("contributorIds", .arrayUnion [.str userId])]

/-! ## Frames -/

theorem hasList_congr {s s' : Store Path} {u : String}
    (h : s'.get (.users u) = s.get (.users u)) (l : String) :
    HasList s' u l ↔ HasList s u l := by
  rw [HasList, Store.elemsAt_congr h, HasList]

theorem names_congr {s s' : Store Path} {l : String}
    (h : s'.get (.placeLists l) = s.get (.placeLists l)) (u : String) :
    Names s' l u ↔ Names s l u := by
  rw [Names, Contributes, h, Store.field_congr h, Store.elemsAt_congr h, Names,
    Contributes]

theorem Names.get_ne_none {s : Store Path} {l u : String} (h : Names s l u) :
    s.get (.placeLists l) ≠ none := by
  intro hn
  have := h.1
  rw [hn] at this
  cases this

/-! ## Writes to a list -/

section ListWrites

variable {s s' : Store Path} {l : String}

/-- A write to a list leaves every user's side. -/
theorem hasList_of_list_write {w : Write Path} (h : w.apply s = some s')
    (hw : w.path = .placeLists l) (u k : String) :
    HasList s' u k ↔ HasList s u k :=
  hasList_congr (w.get_of_ne h (by rw [hw]; exact Path.noConfusion)) k

/-- A list written where there was none names its owner and its
contributors; the other lists name whom they named. -/
theorem names_set (h : s.get (.placeLists l) = none) {d : Doc}
    (owner : String) (ids : List String)
    (ho : d.get? "listOwnerId" = some (.str owner))
    (hc : d.get? "contributorIds" = some (.strs ids)) (k u : String) :
    Names (s.put (.placeLists l) d) k u ↔
      Names s k u ∨ (k = l ∧ (u = owner ∨ u ∈ ids)) := by
  by_cases hk : k = l
  · subst hk
    have hself := s.get_put_self (.placeLists k) d
    have hnot : ¬ Names s k u := fun hn => hn.get_ne_none h
    rw [Names, Contributes, hself, Store.field_eq hself, Store.elemsAt_eq hself,
      ho, hc, Value.strs, elems_arr]
    simp [hnot, @eq_comm _ owner u]
  · have hne : Path.placeLists k ≠ .placeLists l := by simpa using hk
    rw [names_congr (s.get_put_of_ne d hne)]
    simp [hk]

/-- Adding a contributor makes the list name one user more. -/
theorem names_arrayUnion {v : String}
    (h : (Write.update (.placeLists l) [("contributorIds", .arrayUnion [.str v])]).apply s
      = some s') (k u : String) :
    Names s' k u ↔ Names s k u ∨ (k = l ∧ u = v) := by
  obtain ⟨d, hd, -⟩ := Write.apply_update_eq_some h
  have howner : s'.field (.placeLists k) "listOwnerId" =
      s.field (.placeLists k) "listOwnerId" := by
    rw [Write.field_update_single h]; simp
  rw [Names, Names, Write.get_update_isSome h, howner, Contributes,
    Write.mem_elemsAt_arrayUnion h, Contributes]
  simp only [Path.placeLists.injEq, List.mem_singleton, Value.str.injEq, true_and]
  constructor
  · rintro ⟨he, ho | hc | hkl⟩
    · exact .inl ⟨he, .inl ho⟩
    · exact .inl ⟨he, .inr hc⟩
    · exact .inr hkl
  · rintro (⟨he, ho | hc⟩ | hkl)
    · exact ⟨he, .inl ho⟩
    · exact ⟨he, .inr (.inl hc)⟩
    · refine ⟨?_, .inr (.inr hkl)⟩
      rw [hkl.1, hd]
      rfl

/-- A deleted list names nobody. -/
theorem names_delete (k u : String) :
    Names (s.del (.placeLists l)) k u ↔ Names s k u ∧ k ≠ l := by
  by_cases hk : k = l
  · subst hk
    have hnot : ¬ Names (s.del (.placeLists k)) k u :=
      fun hn => hn.get_ne_none (s.get_del_self _)
    simp [hnot]
  · have hne : Path.placeLists k ≠ .placeLists l := by simpa using hk
    rw [names_congr (s.get_del_of_ne hne)]
    simp [hk]

end ListWrites

/-! ## Writes to a user -/

section UserWrites

variable {s s' : Store Path} {u : String}

/-- A write to a user leaves every list's side. -/
theorem names_of_user_write {w : Write Path} (h : w.apply s = some s')
    (hw : w.path = .users u) (k v : String) : Names s' k v ↔ Names s k v :=
  names_congr (w.get_of_ne h (by rw [hw]; exact Path.noConfusion)) v

/-- Adding a list id gives the user one list more. -/
theorem hasList_arrayUnion {l : String}
    (h : (Write.update (.users u) [("placeListIds", .arrayUnion [.str l])]).apply s
      = some s') (v k : String) :
    HasList s' v k ↔ HasList s v k ∨ (v = u ∧ k = l) := by
  rw [HasList, Write.mem_elemsAt_arrayUnion h, HasList]
  simp

/-- Removing a list id takes the list from the user. -/
theorem hasList_arrayRemove {l : String}
    (h : (Write.update (.users u) [("placeListIds", .arrayRemove [.str l])]).apply s
      = some s') (v k : String) :
    HasList s' v k ↔ HasList s v k ∧ ¬ (v = u ∧ k = l) := by
  rw [HasList, Write.mem_elemsAt_arrayRemove h, HasList]
  simp

end UserWrites

/-! ## Users that can be read -/

/-- The user's document exists and can be read. -/
def Readable (s : Store Path) (u : String) : Prop :=
  ∃ user, User.fromSnapshot u (s.get (.users u)) = .ok user

/-- Adding an id to an array of ids leaves one. -/
theorem arrayUnion_strs (ids : List String) (l : String) :
    ∃ ids', (FieldWrite.arrayUnion [.str l]).apply (some (.strs ids)) = .strs ids' := by
  by_cases h : l ∈ ids
  · exact ⟨ids, by simp [FieldWrite.apply, unionTo, Value.strs, h]⟩
  · exact ⟨ids ++ [l], by simp [FieldWrite.apply, unionTo, Value.strs, h]⟩

/-- Taking values from an array of ids leaves one. -/
theorem arrayRemove_strs (ids : List String) (vs : List Value) :
    ∃ ids', (FieldWrite.arrayRemove vs).apply (some (.strs ids)) = .strs ids' := by
  refine ⟨ids.filter fun id => .str id ∉ vs, ?_⟩
  simp [FieldWrite.apply, removeFrom, Value.strs, List.filter_map, Function.comp_def]

/-- A user whose `placeListIds` stay an array of ids can still be read. -/
theorem Readable.update {s s' : Store Path} {u v : String} {w : FieldWrite}
    (hw : ∀ ids, ∃ ids', w.apply (some (.strs ids)) = .strs ids')
    (h : (Write.update (.users v) [("placeListIds", w)]).apply s = some s')
    (hr : Readable s u) : Readable s' u := by
  by_cases hu : u = v
  · subst hu
    obtain ⟨d, hd, rfl⟩ := Write.apply_update_eq_some h
    obtain ⟨d', hd', hfields, ids, hids⟩ := User.fromSnapshot_isOk.mp hr
    rw [hd] at hd'
    cases hd'
    obtain ⟨ids', hids'⟩ := hw ids
    have hother : ∀ f, f ≠ "placeListIds" →
        (d.update [("placeListIds", w)]).get? f = d.get? f := by
      intro f hf
      rw [Doc.get?_update_single, if_neg hf]
    refine User.fromSnapshot_isOk.mpr ⟨_, Store.get_put_self s _ _, ?_, ids', ?_⟩
    · intro f hf
      have hne : f ≠ "placeListIds" := by
        rintro rfl
        simp at hf
      rw [hother f hne]
      exact hfields f hf
    · rw [Doc.get?_update_single, if_pos rfl, hids, hids']
  · have hne : Path.users u ≠ .users v := by simpa using hu
    rw [Readable, Write.get_of_ne h hne]
    exact hr

/-! ## Small databases -/

/-- The document of a user with the given lists. -/
def userDoc (uid : String) (placeListIds : List String) : Doc :=
  Doc.ofList (User.toDocument
    { id := some uid, userName := some uid, name := some uid, email := none
      profilePicture := some "", placeListIds := some placeListIds })

/-- The document of a list with the given owner and contributors. -/
def listDoc (listOwnerId : String) (contributorIds : List String) : Doc :=
  Doc.ofList [("name", .str "Rome"), ("placeCount", .int 0),
    ("listOwnerId", .str listOwnerId), ("icon", .map []),
    ("contributorIds", .strs contributorIds)]

@[simp] theorem userDoc_placeListIds (uid : String) (ids : List String) :
    (userDoc uid ids).get? "placeListIds" = some (.strs ids) := by
  rw [userDoc, Doc.get?_ofList]
  rfl

theorem userDoc_readable (uid : String) (ids : List String) :
    ∃ user, User.fromSnapshot uid (some (userDoc uid ids)) = .ok user :=
  ⟨_, User.fromSnapshot_toDocument rfl rfl⟩

@[simp] theorem listDoc_listOwnerId (owner : String) (ids : List String) :
    (listDoc owner ids).get? "listOwnerId" = some (.str owner) := by
  rw [listDoc, Doc.get?_ofList]
  rfl

@[simp] theorem listDoc_contributorIds (owner : String) (ids : List String) :
    (listDoc owner ids).get? "contributorIds" = some (.strs ids) := by
  rw [listDoc, Doc.get?_ofList]
  rfl

end GottaGo
