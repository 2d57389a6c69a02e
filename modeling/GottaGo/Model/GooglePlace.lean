/-
GottaGo.Model.GooglePlace — a place as the Places service describes it
(`lib/model/google_place.dart`, `geometry.dart`, `location_result.dart`,
`viewport_result.dart`), and the place of the app made from it
(`Place.fromGooglePlace`, and the two functions of `globals.dart` that it
calls).

The arguments of a constructor are read in the order in which they are
written, so what is thrown first comes first.
-/
import GottaGo.Json.Dynamic
import GottaGo.Model.Documents

namespace GottaGo

open GottaGo.Firestore

structure LocationResult where
  lat : UInt64
  lng : UInt64
  deriving DecidableEq, Repr

def LocationResult.fromJson (parsedJson : List (String × Value)) :
    Except Json.Thrown LocationResult := do
  let lat ← Json.assign Json.asDouble (Json.get parsedJson "lat")
  let lng ← Json.assign Json.asDouble (Json.get parsedJson "lng")
  return { lat := lat, lng := lng }

structure ViewportResult where
  northEastLat : UInt64
  northEastLng : UInt64
  southWestLat : UInt64
  southWestLng : UInt64
  deriving DecidableEq, Repr

def ViewportResult.fromJson (parsedJson : List (String × Value)) :
    Except Json.Thrown ViewportResult := do
  let northEastLat ← Json.index (Json.get parsedJson "northeast") "lat" >>=
    Json.assign Json.asDouble
  let northEastLng ← Json.index (Json.get parsedJson "northeast") "lng" >>=
    Json.assign Json.asDouble
  let southWestLat ← Json.index (Json.get parsedJson "southwest") "lat" >>=
    Json.assign Json.asDouble
  let southWestLng ← Json.index (Json.get parsedJson "southwest") "lng" >>=
    Json.assign Json.asDouble
  return {
    northEastLat := northEastLat
    northEastLng := northEastLng
    southWestLat := southWestLat
    southWestLng := southWestLng }

structure Geometry where
  locationResult : LocationResult
  viewportResult : ViewportResult
  deriving DecidableEq, Repr

def Geometry.fromJson (parsedJson : List (String × Value)) : Except Json.Thrown Geometry := do
  let location ← Json.assign asMap (Json.get parsedJson "location")
  let locationResult ← LocationResult.fromJson location
  let viewport ← Json.assign asMap (Json.get parsedJson "viewport")
  let viewportResult ← ViewportResult.fromJson viewport
  return { locationResult := locationResult, viewportResult := viewportResult }

structure GooglePlace where
  geometry : Option Geometry := none
  name : Option String := none
  formattedAddress : Option String := none
  addressComponents : Option (List Value) := none
  formattedPhoneNumber : Option String := none
  placeId : Option String := none
  rating : Option UInt64 := none
  type : Option String := none
  icon : Option String := none
  weekDayText : Option (List String) := none
  website : Option String := none
  url : Option String := none
  reviews : Option (List Value) := none
  photos : Option (List Value) := none
  deriving DecidableEq, Repr

namespace GooglePlace

def fromJson (parsedJson : List (String × Value)) : Except Json.Thrown GooglePlace := do
  let formattedPhoneNumber ←
    Json.assign asString? (Json.get parsedJson "formatted_phone_number")
  let formattedAddress ← Json.assign asString? (Json.get parsedJson "vicinity")
  let geometryJson ← Json.assign asMap (Json.get parsedJson "geometry")
  let geometry ← Geometry.fromJson geometryJson
  let name ← Json.assign asString? (Json.get parsedJson "name")
  let placeId ← Json.assign asString? (Json.get parsedJson "place_id")
  let types ← Json.listFrom (Json.get parsedJson "types")
  let type ← Json.first types >>= Json.assign asString?
  let icon ← Json.assign asString? (Json.get parsedJson "icon")
  let rating ← Json.assign asDouble? (Json.get parsedJson "rating")
  let addressComponents ← Json.listFrom (Json.get parsedJson "address_components")
  let weekDayText ← weekDays (Json.get parsedJson "opening_hours")
  let photos ← Json.listFrom (Json.get parsedJson "photos")
  let url ← Json.assign asString? (Json.get parsedJson "url")
  let reviews ← listOrNull (Json.get parsedJson "reviews")
  let website ← Json.assign asString? (Json.get parsedJson "website")
  return {
    formattedPhoneNumber := formattedPhoneNumber
    formattedAddress := formattedAddress
    geometry := some geometry
    name := name
    placeId := placeId
    type := type
    icon := icon
    rating := rating
    addressComponents := some addressComponents
    weekDayText := weekDayText
    photos := some photos
    url := url
    reviews := reviews
    website := website }
where
  /-- `v != null ? List.from(v['weekday_text']) : null`. -/
  weekDays (v : Value) : Except Json.Thrown (Option (List String)) :=
    if v = .null then return none
    else do
      let text ← Json.index v "weekday_text" >>= Json.assign stringsFrom
      return some text
  /-- `v != null ? List.from(v) : null`. -/
  listOrNull (v : Value) : Except Json.Thrown (Option (List Value)) :=
    if v = .null then return none
    else do
      let vs ← Json.listFrom v
      return some vs

end GooglePlace

/-! ## `globals.dart` -/

/-- The `short_name` of the first address component whose first type is in
`types`. -/
def parseFromGooglePlace (types : List String) (googlePlace : GooglePlace) :
    Except Json.Thrown (Option String) :=
  match googlePlace.addressComponents with
  | none => return none
  | some addressComponents => do
    let element ← Json.firstWhere
      (fun element => do
        let firstType ← Json.index element "types" >>= Json.head?
        return types.any fun type => firstType = .str type)
      addressComponents
    Json.index element "short_name" >>= Json.assign asString?

def parseCityFromGooglePlace : GooglePlace → Except Json.Thrown (Option String) :=
  parseFromGooglePlace ["locality", "administrative_area_level_3"]

def parseStateFromGooglePlace : GooglePlace → Except Json.Thrown (Option String) :=
  parseFromGooglePlace ["administrative_area_level_1"]

namespace Place

def fromGooglePlace (googlePlace : GooglePlace) : Except Json.Thrown Place := do
  let city ← parseCityFromGooglePlace googlePlace
  let state ← parseStateFromGooglePlace googlePlace
  let mainPhoto ← mainPhotoOf googlePlace.photos
  return {
    placeId := googlePlace.placeId
    name := googlePlace.name
    type := googlePlace.type
    website := googlePlace.website
    city := city
    state := state
    rating := googlePlace.rating
    address := googlePlace.formattedAddress
    phoneNumber := googlePlace.formattedPhoneNumber
    icon := googlePlace.icon
    mapsUrl := googlePlace.url
    mainPhoto := mainPhoto
    hours := googlePlace.weekDayText.map fun text => text.map .str
    reviews := googlePlace.reviews
    photos := googlePlace.photos }
where
  /-- `photos?[0]['photo_reference']`. -/
  mainPhotoOf : Option (List Value) → Except Json.Thrown (Option String)
    | none => return none
    | some [] => .error .rangeError
    | some (photo :: _) => Json.index photo "photo_reference" >>= Json.assign asString?

end Place

end GottaGo
