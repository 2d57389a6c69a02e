/-
GottaGo.Model.DocumentsTheorems — what a decoded value says about the
document it was read from, and that encoding loses nothing.

`fromSnapshot_ok` (for `User` and `PlaceList`) is the inversion lemma of a
decoder: if it returns, the document exists and its fields hold the
encoded fields of the value. `fromSnapshot_toDocument` (one for each class)
are the round trips the later modules use.
-/
import GottaGo.Model.Documents

namespace GottaGo

open GottaGo.Firestore

theorem fieldOf_ofList (fs : List (String × Value)) (f : String) :
    fieldOf (some (Doc.ofList fs)) f =
      match fs.lookup f with
      | none => .error .stateError
      | some v => .ok v := by
  cases h : fs.lookup f <;> simp [fieldOf, h]

theorem asString?_ofString? (s : Option String) :
    asString? (Value.ofString? s) = .ok s := asString?_eq_ok.mpr rfl

theorem asDouble?_ofDouble? (x : Option UInt64) :
    asDouble? (Value.ofDouble? x) = .ok x := by
  cases x <;> rfl

theorem asList?_ofList? (vs : Option (List Value)) :
    asList? (Value.ofList? vs) = .ok vs := by
  cases vs <;> rfl

/-- A user that was read is the content of its document. -/
theorem User.fromSnapshot_ok {id : String} {snap : Option Doc} {u : User}
    (h : User.fromSnapshot id snap = .ok u) :
    u.id = some id ∧ ∃ d ids, snap = some d ∧ u.placeListIds = some ids ∧
      d.get? "placeListIds" = some (.strs ids) ∧
      d.get? "userName" = some (Value.ofString? u.userName) := by
  simp only [User.fromSnapshot, bind_eq_ok, fieldOf_eq_ok, asString?_eq_ok,
    stringsFrom_eq_ok] at h
  obtain ⟨userName, ⟨_, ⟨d, rfl, hn⟩, rfl⟩, _, -, _, -, _, -, ids,
    ⟨_, ⟨d', hd', hi⟩, rfl⟩, hu⟩ := h
  cases hd'
  cases hu
  exact ⟨rfl, d, ids, rfl, rfl, hi, hn⟩

/-- The snapshots that can be read as users: four fields hold a string or
null, the fifth an array of strings. -/
theorem User.fromSnapshot_isOk {id : String} {snap : Option Doc} :
    (∃ u, User.fromSnapshot id snap = .ok u) ↔
      ∃ d, snap = some d ∧
        (∀ f ∈ ["userName", "name", "email", "profilePicture"],
          ∃ x, d.get? f = some (Value.ofString? x)) ∧
        ∃ ids, d.get? "placeListIds" = some (.strs ids) := by
  simp only [User.fromSnapshot, bind_eq_ok, fieldOf_eq_ok, asString?_eq_ok,
    stringsFrom_eq_ok]
  constructor
  · intro h
    obtain ⟨_, _, ⟨_, ⟨d, rfl, h₁⟩, rfl⟩, _, ⟨_, ⟨_, hd₂, h₂⟩, rfl⟩, _,
      ⟨_, ⟨_, hd₃, h₃⟩, rfl⟩, _, ⟨_, ⟨_, hd₄, h₄⟩, rfl⟩, ids, ⟨_, ⟨_, hd₅, h₅⟩, rfl⟩, -⟩ := h
    cases hd₂
    cases hd₃
    cases hd₄
    cases hd₅
    refine ⟨d, rfl, ?_, ids, h₅⟩
    simp [h₁, h₂, h₃, h₄]
  · intro h
    obtain ⟨d, rfl, hfields, ids, h₅⟩ := h
    obtain ⟨x₁, h₁⟩ := hfields "userName" (by simp)
    obtain ⟨x₂, h₂⟩ := hfields "name" (by simp)
    obtain ⟨x₃, h₃⟩ := hfields "email" (by simp)
    obtain ⟨x₄, h₄⟩ := hfields "profilePicture" (by simp)
    exact ⟨_, x₁, ⟨_, ⟨d, rfl, h₁⟩, rfl⟩, x₂, ⟨_, ⟨d, rfl, h₂⟩, rfl⟩, x₃,
      ⟨_, ⟨d, rfl, h₃⟩, rfl⟩, x₄, ⟨_, ⟨d, rfl, h₄⟩, rfl⟩, ids, ⟨_, ⟨d, rfl, h₅⟩, rfl⟩, rfl⟩

/-- A list that was read is the content of its document. -/
theorem PlaceList.fromSnapshot_ok {id : String} {snap : Option Doc}
    {l : PlaceList} (h : PlaceList.fromSnapshot id snap = .ok l) :
    l.placeListId = some id ∧ ∃ d ids, snap = some d ∧
      l.contributorIds = some ids ∧
      d.get? "contributorIds" = some (.strs ids) ∧
      d.get? "listOwnerId" = some (.str l.listOwnerId) := by
  simp only [PlaceList.fromSnapshot, bind_eq_ok, fieldOf_eq_ok, asString_eq_ok,
    stringsFrom_eq_ok] at h
  obtain ⟨_, -, _, -, _, -, owner, ⟨_, ⟨d, rfl, ho⟩, rfl⟩, ids,
    ⟨_, ⟨d', hd', hi⟩, rfl⟩, hl⟩ := h
  cases hd'
  cases hl
  exact ⟨rfl, d, ids, rfl, rfl, hi, ho⟩

/-- An invite that was read has the id of its document, which exists. -/
theorem Invite.fromSnapshot_ok {id : String} {snap : Option Doc} {i : Invite}
    (h : Invite.fromSnapshot id snap = .ok i) : i.inviteId = some id ∧ snap.isSome := by
  simp only [Invite.fromSnapshot, bind_eq_ok, fieldOf_eq_ok] at h
  obtain ⟨_, ⟨_, ⟨d, rfl, -⟩, -⟩, _, -, _, -, _, -, _, -, _, -, _, -, hi⟩ := h
  cases hi
  exact ⟨rfl, rfl⟩

/-- A user's document names each field once. -/
theorem User.toDocument_nodup (u : User) : (u.toDocument.map Prod.fst).Nodup := by
  simp [User.toDocument]

/-- A list that can be written out has contributors, and its document names
each field once. -/
theorem PlaceList.toDocument_ok {l : PlaceList} {fs : List (String × Value)}
    (h : l.toDocument = .ok fs) :
    (fs.map Prod.fst).Nodup ∧ ∀ v, ("listOwnerId", v) ∈ fs ↔ v = .str l.listOwnerId := by
  unfold PlaceList.toDocument at h
  split at h
  · cases h
  · cases h
    exact ⟨by simp, by simp⟩

/-- A user written out and read back is the user. -/
theorem User.fromSnapshot_toDocument {u : User} {id : String} {ids : List String}
    (hid : u.id = some id) (hids : u.placeListIds = some ids) :
    User.fromSnapshot id (some (Doc.ofList u.toDocument)) = .ok u := by
  have hs : ∀ ss, stringsFrom (.strs ss) = .ok ss :=
    fun ss => stringsFrom_eq_ok.mpr rfl
  obtain ⟨_, _, _, _, _, _⟩ := u
  cases hid
  cases hids
  simp [User.fromSnapshot, User.toDocument, fieldOf_ofList, List.lookup_cons,
    asString?_ofString?, Value.ofStrings?, hs, bind, Except.bind, pure, Except.pure]

/-- An invite written out and read back under an id is the invite with
that id. -/
theorem Invite.fromSnapshot_toDocument (i : Invite) (id : String) :
    Invite.fromSnapshot id (some (Doc.ofList i.toDocument)) =
      .ok (i.copyWith { inviteId := some id }) := by
  simp [Invite.fromSnapshot, Invite.toDocument, Invite.copyWith, fieldOf_ofList,
    List.lookup_cons, asString, bind, Except.bind, pure, Except.pure]

/-- A list written out and read back is the list. -/
theorem PlaceList.fromSnapshot_toDocument {l : PlaceList} {id : String} {ids : List String}
    (hid : l.placeListId = some id) (hids : l.contributorIds = some ids) :
    ∃ fs, l.toDocument = .ok fs ∧ PlaceList.fromSnapshot id (some (Doc.ofList fs)) = .ok l := by
  have hs : ∀ ss, stringsFrom (.strs ss) = .ok ss :=
    fun ss => stringsFrom_eq_ok.mpr rfl
  obtain ⟨_, _, _, _, _, _⟩ := l
  cases hid
  cases hids
  refine ⟨_, rfl, ?_⟩
  simp [PlaceList.fromSnapshot, fieldOf_ofList, List.lookup_cons, asString, asInt, asMap, hs,
    bind, Except.bind, pure, Except.pure]

/-- A place written out and read back is the place. -/
theorem Place.fromSnapshot_toDocument (p : Place) :
    Place.fromSnapshot (some (Doc.ofList p.toDocument)) = .ok p := by
  simp [Place.fromSnapshot, Place.toDocument, fieldOf_ofList, List.lookup_cons,
    optionalFieldOf, asString?_ofString?, asDouble?_ofDouble?, asList?_ofList?,
    bind, Except.bind, pure, Except.pure]

end GottaGo
