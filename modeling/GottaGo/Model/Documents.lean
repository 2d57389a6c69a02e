/-
GottaGo.Model.Documents — the documents of the app and their codecs
(`lib/model/user.dart`, `place_list.dart`, `invite.dart`, `place.dart`).

`Path` lists the collections the app uses. Each model class is a record
with the source's fields, nullable ones as `Option`, its `copyWith`
(an argument left out is an argument that is null, so `copyWith` cannot
clear a field), its `toDocument` and its `fromSnapshot`.

`fromSnapshot` reads the fields in the source's order, so it throws what
the source throws first.
-/
import GottaGo.Firestore.Document

namespace GottaGo

open GottaGo.Firestore

/-- The documents of the app. -/
inductive Path where
  | users (uid : String)
  | invites (uid inviteId : String)
  | placeLists (placeListId : String)
  | places (placeListId placeId : String)
  | visitedPlaces (placeListId placeId : String)
  | usernames (userName : String)
  deriving DecidableEq, Repr

/-! ## User -/

structure User where
  id : Option String := none
  userName : Option String := none
  name : Option String := none
  email : Option String := none
  profilePicture : Option String := none
  placeListIds : Option (List String) := none
  deriving DecidableEq, Repr

namespace User

/-- The arguments of `copyWith`. -/
structure Changes where
  id : Option String := none
  userName : Option String := none
  name : Option String := none
  email : Option String := none
  profilePicture : Option String := none
  placeListIds : Option (List String) := none

def copyWith (u : User) (c : Changes) : User where
  id := c.id.or u.id
  userName := c.userName.or u.userName
  name := c.name.or u.name
  email := c.email.or u.email
  profilePicture := c.profilePicture.or u.profilePicture
  placeListIds := c.placeListIds.or u.placeListIds

def fromSnapshot (id : String) (snap : Option Doc) : Except Err User := do
  let userName ← fieldOf snap "userName" >>= asString?
  let name ← fieldOf snap "name" >>= asString?
  let email ← fieldOf snap "email" >>= asString?
  let profilePicture ← fieldOf snap "profilePicture" >>= asString?
  let placeListIds ← fieldOf snap "placeListIds" >>= stringsFrom
  return {
    id := some id
    userName := userName
    name := name
    email := email
    profilePicture := profilePicture
    placeListIds := some placeListIds }

def toDocument (u : User) : List (String × Value) :=
  [("id", .ofString? u.id),
   ("userName", .ofString? u.userName),
   ("name", .ofString? u.name),
   ("email", .ofString? u.email),
   ("profilePicture", .ofString? u.profilePicture),
   ("placeListIds", Value.ofStrings? u.placeListIds)]

end User

/-! ## PlaceList -/

structure PlaceList where
  placeListId : Option String := none
  name : String
  listOwnerId : String
  icon : List (String × Value)
  placeCount : Int
  contributorIds : Option (List String) := none

namespace PlaceList

/-- The arguments of `copyWith`. -/
structure Changes where
  placeListId : Option String := none
  name : Option String := none
  icon : Option (List (String × Value)) := none
  placeCount : Option Int := none
  listOwnerId : Option String := none
  contributorIds : Option (List String) := none

def copyWith (l : PlaceList) (c : Changes) : PlaceList where
  placeListId := c.placeListId.or l.placeListId
  name := c.name.getD l.name
  icon := c.icon.getD l.icon
  placeCount := c.placeCount.getD l.placeCount
  listOwnerId := c.listOwnerId.getD l.listOwnerId
  contributorIds := c.contributorIds.or l.contributorIds

def fromSnapshot (id : String) (snap : Option Doc) : Except Err PlaceList := do
  let placeCount ← fieldOf snap "placeCount" >>= asInt
  let name ← fieldOf snap "name" >>= asString
  let icon ← fieldOf snap "icon" >>= asMap
  let listOwnerId ← fieldOf snap "listOwnerId" >>= asString
  let contributorIds ← fieldOf snap "contributorIds" >>= stringsFrom
  return {
    placeListId := some id
    name := name
    listOwnerId := listOwnerId
    icon := icon
    placeCount := placeCount
    contributorIds := some contributorIds }

/-- `contributorIds ?? contributorIds!` throws when there are none. -/
def toDocument (l : PlaceList) : Except Err (List (String × Value)) :=
  match l.contributorIds with
  | none => .error .typeError
  | some ids =>
    .ok [("name", .str l.name),
      ("placeCount", .int l.placeCount),
      ("listOwnerId", .str l.listOwnerId),
      ("icon", .map l.icon),
      ("contributorIds", .strs ids)]

end PlaceList

/-! ## Invite -/

structure Invite where
  inviteId : Option String := none
  invitedUserId : String
  listOwnerId : String
  placeListId : String
  inviteStatus : String
  placeListName : String
  inviterName : String
  inviteeName : String
  deriving DecidableEq, Repr

namespace Invite

/-- The arguments of `copyWith`. -/
structure Changes where
  inviteId : Option String := none
  invitedUserId : Option String := none
  listOwnerId : Option String := none
  placeListId : Option String := none
  inviteStatus : Option String := none
  placeListName : Option String := none
  inviterName : Option String := none
  inviteeName : Option String := none

def copyWith (i : Invite) (c : Changes) : Invite where
  inviteId := c.inviteId.or i.inviteId
  invitedUserId := c.invitedUserId.getD i.invitedUserId
  listOwnerId := c.listOwnerId.getD i.listOwnerId
  placeListId := c.placeListId.getD i.placeListId
  inviteStatus := c.inviteStatus.getD i.inviteStatus
  placeListName := c.placeListName.getD i.placeListName
  inviteeName := c.inviteeName.getD i.inviteeName
  inviterName := c.inviterName.getD i.inviterName

def toDocument (i : Invite) : List (String × Value) :=
  [("invitedUserId", .str i.invitedUserId),
   ("inviteeName", .str i.inviteeName),
   ("listOwnerId", .str i.listOwnerId),
   ("inviterName", .str i.inviterName),
   ("placeListId", .str i.placeListId),
   ("placeListName", .str i.placeListName),
   ("inviteStatus", .str i.inviteStatus)]

def fromSnapshot (id : String) (snap : Option Doc) : Except Err Invite := do
  let invitedUserId ← fieldOf snap "invitedUserId" >>= asString
  let inviteeName ← fieldOf snap "inviteeName" >>= asString
  let listOwnerId ← fieldOf snap "listOwnerId" >>= asString
  let inviterName ← fieldOf snap "inviterName" >>= asString
  let placeListId ← fieldOf snap "placeListId" >>= asString
  let placeListName ← fieldOf snap "placeListName" >>= asString
  let inviteStatus ← fieldOf snap "inviteStatus" >>= asString
  return {
    inviteId := some id
    invitedUserId := invitedUserId
    inviteeName := inviteeName
    listOwnerId := listOwnerId
    inviterName := inviterName
    placeListId := placeListId
    placeListName := placeListName
    inviteStatus := inviteStatus }

end Invite

/-! ## Place -/

structure Place where
  placeId : Option String := none
  name : Option String := none
  address : Option String := none
  city : Option String := none
  state : Option String := none
  phoneNumber : Option String := none
  icon : Option String := none
  reviews : Option (List Value) := none
  rating : Option UInt64 := none
  website : Option String := none
  type : Option String := none
  mapsUrl : Option String := none
  mainPhoto : Option String := none
  hours : Option (List Value) := none
  photos : Option (List Value) := none

namespace Place

/-- Six keys are newer than some documents and may be absent; the other
nine are read unconditionally. -/
def fromSnapshot (snap : Option Doc) : Except Err Place :=
  match snap with
  | none => .error .typeError
  | some d => do
    let placeId ← fieldOf (some d) "placeId" >>= asString?
    let state ← fieldOf (some d) "state" >>= asString?
    let name ← fieldOf (some d) "name" >>= asString?
    let address ← fieldOf (some d) "address" >>= asString?
    let city ← fieldOf (some d) "city" >>= asString?
    let reviews ← asList? (optionalFieldOf d "reviews")
    let rating ← asDouble? (optionalFieldOf d "rating")
    let website ← asString? (optionalFieldOf d "website")
    let type ← fieldOf (some d) "type" >>= asString?
    let mainPhoto ← fieldOf (some d) "mainPhoto" >>= asString?
    let hours ← asList? (optionalFieldOf d "hours")
    let mapsUrl ← fieldOf (some d) "mapsUrl" >>= asString?
    let phoneNumber ← asString? (optionalFieldOf d "phoneNumber")
    let icon ← fieldOf (some d) "icon" >>= asString?
    let photos ← asList? (optionalFieldOf d "photos")
    return {
      placeId := placeId
      state := state
      name := name
      address := address
      city := city
      reviews := reviews
      rating := rating
      website := website
      type := type
      mainPhoto := mainPhoto
      hours := hours
      mapsUrl := mapsUrl
      phoneNumber := phoneNumber
      icon := icon
      photos := photos }

def toDocument (p : Place) : List (String × Value) :=
  [("placeId", .ofString? p.placeId),
   ("name", .ofString? p.name),
   ("address", .ofString? p.address),
   ("city", .ofString? p.city),
   ("state", .ofString? p.state),
   ("reviews", Value.ofList? p.reviews),
   ("rating", Value.ofDouble? p.rating),
   ("website", .ofString? p.website),
   ("type", .ofString? p.type),
   ("mainPhoto", .ofString? p.mainPhoto),
   ("hours", Value.ofList? p.hours),
   ("mapsUrl", .ofString? p.mapsUrl),
   ("phoneNumber", .ofString? p.phoneNumber),
   ("icon", .ofString? p.icon),
   ("photos", Value.ofList? p.photos)]

end Place

end GottaGo
