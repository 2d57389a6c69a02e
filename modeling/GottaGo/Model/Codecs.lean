/-
GottaGo.Model.Codecs — storing a value and reading it back loses nothing.

A value is stored by `set(toDocument())` and read back by a `get` that
`fromSnapshot` decodes. `User`, `PlaceList` and `Invite` take their id from
the document they are read from, `Place` stores its own. Nine keys of a
place document are read unconditionally; the other six are newer than some
documents, and a document without one of them reads as if it held null
there. Which place documents can be read at all is
`Place.fromSnapshot_isOk`; those are not changed by being written out again.
-/
import GottaGo.Model.DocumentsTheorems
import GottaGo.Repository.Database

namespace GottaGo

open GottaGo.Async GottaGo.Firestore

namespace Place

/-- The keys that `fromSnapshot` reads unconditionally. -/
def requiredKeys : List String :=
  ["placeId", "state", "name", "address", "city", "type", "mainPhoto", "mapsUrl", "icon"]

/-- What a document holds under the keys of a place has the types that
`fromSnapshot` assigns it to. -/
structure WellTyped (d : Doc) : Prop where
  required : ∀ f ∈ requiredKeys, ∃ x, d.get? f = some (.ofString? x)
  strings : ∀ f ∈ ["website", "phoneNumber"], ∃ x, optionalFieldOf d f = .ofString? x
  lists : ∀ f ∈ ["reviews", "hours", "photos"], ∃ x, optionalFieldOf d f = Value.ofList? x
  rating : ∃ x, optionalFieldOf d "rating" = Value.ofDouble? x

theorem fieldOf_some_eq_ok {d : Doc} {f : String} {v : Value} :
    fieldOf (some d) f = .ok v ↔ d.get? f = some v := by
  simp [fieldOf_eq_ok]

/-- The documents that can be read as places. -/
theorem fromSnapshot_isOk {d : Doc} :
    (∃ p, fromSnapshot (some d) = .ok p) ↔ WellTyped d := by
  simp only [fromSnapshot, bind_eq_ok, fieldOf_some_eq_ok, asString?_eq_ok, asList?_eq_ok,
    asDouble?_eq_ok]
  constructor
  · intro h
    obtain ⟨_, _, ⟨_, h₁, rfl⟩, _, ⟨_, h₂, rfl⟩, _, ⟨_, h₃, rfl⟩, _, ⟨_, h₄, rfl⟩, _,
      ⟨_, h₅, rfl⟩, _, h₆, _, h₇, _, h₈, _, ⟨_, h₉, rfl⟩, _, ⟨_, h₁₀, rfl⟩, _, h₁₁, _,
      ⟨_, h₁₂, rfl⟩, _, h₁₃, _, ⟨_, h₁₄, rfl⟩, _, h₁₅, -⟩ := h
    constructor
    case required => simp [requiredKeys, h₁, h₂, h₃, h₄, h₅, h₉, h₁₀, h₁₂, h₁₄]
    case strings => simp [h₈, h₁₃]
    case lists => simp [h₆, h₁₁, h₁₅]
    case rating => exact ⟨_, h₇⟩
  · intro h
    obtain ⟨hr, hs, hl, rating, h₇⟩ := h
    obtain ⟨placeId, h₁⟩ := hr "placeId" (by simp [requiredKeys])
    obtain ⟨state, h₂⟩ := hr "state" (by simp [requiredKeys])
    obtain ⟨name, h₃⟩ := hr "name" (by simp [requiredKeys])
    obtain ⟨address, h₄⟩ := hr "address" (by simp [requiredKeys])
    obtain ⟨city, h₅⟩ := hr "city" (by simp [requiredKeys])
    obtain ⟨reviews, h₆⟩ := hl "reviews" (by simp)
    obtain ⟨website, h₈⟩ := hs "website" (by simp)
    obtain ⟨type, h₉⟩ := hr "type" (by simp [requiredKeys])
    obtain ⟨mainPhoto, h₁₀⟩ := hr "mainPhoto" (by simp [requiredKeys])
    obtain ⟨hours, h₁₁⟩ := hl "hours" (by simp)
    obtain ⟨mapsUrl, h₁₂⟩ := hr "mapsUrl" (by simp [requiredKeys])
    obtain ⟨phoneNumber, h₁₃⟩ := hs "phoneNumber" (by simp)
    obtain ⟨icon, h₁₄⟩ := hr "icon" (by simp [requiredKeys])
    obtain ⟨photos, h₁₅⟩ := hl "photos" (by simp)
    exact ⟨_, placeId, ⟨_, h₁, rfl⟩, state, ⟨_, h₂, rfl⟩, name, ⟨_, h₃, rfl⟩, address,
      ⟨_, h₄, rfl⟩, city, ⟨_, h₅, rfl⟩, reviews, h₆, rating, h₇, website, h₈, type,
      ⟨_, h₉, rfl⟩, mainPhoto, ⟨_, h₁₀, rfl⟩, hours, h₁₁, mapsUrl, ⟨_, h₁₂, rfl⟩, phoneNumber,
      h₁₃, icon, ⟨_, h₁₄, rfl⟩, photos, h₁₅, rfl⟩

/-- A place document written out again reads as before, errors included. -/
theorem fromSnapshot_again (d : Doc) :
    (do
      let p ← fromSnapshot (some d)
      fromSnapshot (some (Doc.ofList p.toDocument))) = fromSnapshot (some d) := by
  cases h : fromSnapshot (some d) with
  | error e => rfl
  | ok p => exact fromSnapshot_toDocument p

end Place

/-- The id is already there. -/
theorem Invite.copyWith_self {i : Invite} {id : String} (h : i.inviteId = some id) :
    i.copyWith { inviteId := some id } = i := by
  obtain ⟨_, _, _, _, _, _, _, _⟩ := i
  cases h
  rfl

/-! ## Through the database -/

/-- `ref.set(fields)`, then `ref.get()` and a decoder. -/
def setThenRead {α : Type} (ref : Path) (fields : List (String × Value))
    (fromSnapshot : Option Doc → Except Err α) : App α := do
  Fire.set ref fields
  let snap ← Fire.get ref
  Prog.ofExcept (fromSnapshot snap)

/-- What was set is what is read. -/
theorem eval_setThenRead {α : Type} (ref : Path) (fields : List (String × Value))
    (fromSnapshot : Option Doc → Except Err α) (st : AppState) :
    (Prog.eval (serve {}) (setThenRead ref fields fromSnapshot) st).1 =
      fromSnapshot (some (Doc.ofList fields)) := by
  simp [setThenRead]

/-- Storing a value under its own id and reading it back gives the value, in
every field, whatever the database holds. A place document that can be read
reads as before after it has been read and written out. -/
theorem codecs_lossless (st : AppState) (user : User) (uid : String) (placeList : PlaceList)
    (placeListId : String) (invite : Invite) (owner inviteId : String) (place : Place)
    (ref : Path) (d : Doc) (huser : user.id = some uid) (hlists : user.placeListIds ≠ none)
    (hlist : placeList.placeListId = some placeListId)
    (hcontributors : placeList.contributorIds ≠ none)
    (hinvite : invite.inviteId = some inviteId) :
    (Prog.eval (serve {}) (setThenRead (.users uid) user.toDocument (User.fromSnapshot uid))
        st).1 = .ok user ∧
      (∃ fields, placeList.toDocument = .ok fields ∧
        (Prog.eval (serve {})
          (setThenRead (.placeLists placeListId) fields (PlaceList.fromSnapshot placeListId))
          st).1 = .ok placeList) ∧
      (Prog.eval (serve {})
        (setThenRead (.invites owner inviteId) invite.toDocument (Invite.fromSnapshot inviteId))
        st).1 = .ok invite ∧
      (Prog.eval (serve {}) (setThenRead ref place.toDocument Place.fromSnapshot) st).1 =
        .ok place ∧
      ((∃ p, Place.fromSnapshot (some d) = .ok p) ↔ Place.WellTyped d) ∧
      (do
        let p ← Place.fromSnapshot (some d)
        Place.fromSnapshot (some (Doc.ofList p.toDocument))) = Place.fromSnapshot (some d) := by
  simp only [eval_setThenRead]
  obtain ⟨ids, hids⟩ := Option.ne_none_iff_exists'.mp hlists
  obtain ⟨contributorIds, hcs⟩ := Option.ne_none_iff_exists'.mp hcontributors
  refine ⟨User.fromSnapshot_toDocument huser hids,
    PlaceList.fromSnapshot_toDocument hlist hcs, ?_, Place.fromSnapshot_toDocument place,
    Place.fromSnapshot_isOk, Place.fromSnapshot_again d⟩
  rw [Invite.fromSnapshot_toDocument, Invite.copyWith_self hinvite]

/-- A user with one list, a list with a contributor, an invite, a place
without hours, and a document from before the six keys. -/
theorem codecs_lossless_ada :
    let ada : User :=
      { id := some "ada", userName := some "ada", placeListIds := some ["l"] }
    let trips : PlaceList :=
      { placeListId := some "l", name := "Trips", listOwnerId := "ada", icon := [],
        placeCount := 0, contributorIds := some ["bob"] }
    let invite : Invite :=
      { inviteId := some "i", invitedUserId := "bob", listOwnerId := "ada",
        placeListId := "l", inviteStatus := "pending", placeListName := "Trips",
        inviterName := "ada", inviteeName := "bob" }
    let cafe : Place := { placeId := some "p", name := some "Cafe", rating := some 0 }
    let old : Doc := Doc.ofList (Place.requiredKeys.map fun f => (f, .str f))
    let st : AppState := { store := ∅ }
    (Prog.eval (serve {}) (setThenRead (.users "ada") ada.toDocument (User.fromSnapshot "ada"))
        st).1 = .ok ada ∧
      (∃ fields, trips.toDocument = .ok fields ∧
        (Prog.eval (serve {})
          (setThenRead (.placeLists "l") fields (PlaceList.fromSnapshot "l")) st).1 =
            .ok trips) ∧
      (Prog.eval (serve {})
        (setThenRead (.invites "bob" "i") invite.toDocument (Invite.fromSnapshot "i")) st).1 =
          .ok invite ∧
      (Prog.eval (serve {})
        (setThenRead (.places "l" "p") cafe.toDocument Place.fromSnapshot) st).1 = .ok cafe ∧
      ((∃ p, Place.fromSnapshot (some old) = .ok p) ↔ Place.WellTyped old) ∧
      (do
        let p ← Place.fromSnapshot (some old)
        Place.fromSnapshot (some (Doc.ofList p.toDocument))) = Place.fromSnapshot (some old) :=
  codecs_lossless _ _ _ _ _ _ _ _ _ _ _ rfl (by simp) rfl (by simp) rfl

end GottaGo
