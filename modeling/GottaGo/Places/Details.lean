/-
GottaGo.Places.Details — which results of the Places service can be saved.

`WellFormed` is the shape of a result: strings that may be missing, a type,
a geometry of numbers, address components with a type and a short name, and
four optional parts. `Savable` is what the two conversions ask for beyond
that: no number is an `int`, there is a photo, opening hours have their
text, and some component is of a city and some of a state. A well-formed
result becomes a place, with null where something was missing, just when it
is savable (`saved_iff`); the proof reads both conversions as one list of
conditions and matches the two lists.
-/
import GottaGo.Model.GooglePlace

namespace GottaGo

open GottaGo.Firestore

namespace PlaceDetails

/-- The value under a key, null if there is none or nothing to have it. -/
def sub (v : Value) (k : String) : Value :=
  match v with
  | .map m => Json.get m k
  | _ => .null

/-- A JSON number. -/
inductive IsNumber : Value → Prop
  | int (i : Int) : IsNumber (.int i)
  | double (x : UInt64) : IsNumber (.double x)

/-- The coordinates of a geometry. -/
def coordinates (geometry : Value) : List Value :=
  [sub (sub geometry "location") "lat", sub (sub geometry "location") "lng",
    sub (sub (sub geometry "viewport") "northeast") "lat",
    sub (sub (sub geometry "viewport") "northeast") "lng",
    sub (sub (sub geometry "viewport") "southwest") "lat",
    sub (sub (sub geometry "viewport") "southwest") "lng"]

/-- An address component: it has a type, and a short name. -/
def IsComponent (v : Value) : Prop :=
  (∃ t ts, sub v "types" = .arr (t :: ts)) ∧ ∃ s, sub v "short_name" = .str s

/-- The strings of a result. -/
def strings : List String :=
  ["name", "place_id", "url", "vicinity", "icon", "website", "formatted_phone_number"]

/-- The shape of a result. -/
structure WellFormed (parsedJson : List (String × Value)) : Prop where
  strings : ∀ k ∈ strings, ∃ x, Json.get parsedJson k = .ofString? x
  types : ∃ t ts, Json.get parsedJson "types" = .strs (t :: ts)
  geometry : ∀ c ∈ coordinates (Json.get parsedJson "geometry"), IsNumber c
  addressComponents : ∃ cs, Json.get parsedJson "address_components" = .arr cs ∧
    ∀ c ∈ cs, IsComponent c
  rating : Json.get parsedJson "rating" = .null ∨ IsNumber (Json.get parsedJson "rating")
  openingHours : Json.get parsedJson "opening_hours" = .null ∨
    ∃ m ts, Json.get parsedJson "opening_hours" = .map m ∧
      Json.get m "weekday_text" = Value.ofStrings? ts
  reviews : ∃ vs, Json.get parsedJson "reviews" = Value.ofList? vs
  photos : ∃ vs, Json.get parsedJson "photos" = Value.ofList? vs ∧
    ∀ v ∈ vs.getD [], ∃ m s, v = .map m ∧ Json.get m "photo_reference" = .str s

/-- The address components of a result. -/
def components (parsedJson : List (String × Value)) : List Value :=
  elems (some (Json.get parsedJson "address_components"))

/-- The first type of a component is one of `types`. -/
def hasType (types : List String) (component : Value) : Bool :=
  match sub component "types" with
  | .arr (t :: _) => types.any fun type => t = .str type
  | _ => false

/-- The short name of the first component with such a type. -/
def shortNameOf (types : List String) (parsedJson : List (String × Value)) : Option String :=
  ((components parsedJson).find? (hasType types)).bind fun c =>
    (asString? (sub c "short_name")).toOption.join

def cityTypes : List String := ["locality", "administrative_area_level_3"]

def stateTypes : List String := ["administrative_area_level_1"]

/-- The string under a key. -/
def stringAt (parsedJson : List (String × Value)) (k : String) : Option String :=
  (asString? (Json.get parsedJson k)).toOption.join

/-- The place says what the result says, and null where that says nothing. -/
structure SavedAs (parsedJson : List (String × Value)) (p : Place) : Prop where
  placeId : p.placeId = stringAt parsedJson "place_id"
  name : p.name = stringAt parsedJson "name"
  website : p.website = stringAt parsedJson "website"
  address : p.address = stringAt parsedJson "vicinity"
  phoneNumber : p.phoneNumber = stringAt parsedJson "formatted_phone_number"
  icon : p.icon = stringAt parsedJson "icon"
  mapsUrl : p.mapsUrl = stringAt parsedJson "url"
  rating : Json.get parsedJson "rating" = .null → p.rating = none
  hours : sub (Json.get parsedJson "opening_hours") "weekday_text" = .null → p.hours = none
  reviews : Json.get parsedJson "reviews" = .null → p.reviews = none
  photos : Json.get parsedJson "photos" = .null → p.photos = none ∧ p.mainPhoto = none
  city : p.city = shortNameOf cityTypes parsedJson
  state : p.state = shortNameOf stateTypes parsedJson

/-- What the conversions ask of a well-formed result. -/
structure Savable (parsedJson : List (String × Value)) : Prop where
  coordinates : ∀ c ∈ coordinates (Json.get parsedJson "geometry"), ∃ x, c = .double x
  rating : ∀ i, Json.get parsedJson "rating" ≠ .int i
  weekdayText : Json.get parsedJson "opening_hours" ≠ .null →
    sub (Json.get parsedJson "opening_hours") "weekday_text" ≠ .null
  photo : ∃ v vs, Json.get parsedJson "photos" = .arr (v :: vs)
  city : ∃ c ∈ components parsedJson, hasType cityTypes c = true
  state : ∃ c ∈ components parsedJson, hasType stateTypes c = true

/-! ## The parts of a result -/

section Parts

variable {v : Value} {k : String}

@[simp] theorem sub_map (m : List (String × Value)) (k : String) : sub (.map m) k = Json.get m k :=
  rfl

/-- What has something under a key is a map. -/
theorem sub_eq_iff {w : Value} (hw : w ≠ .null) :
    sub v k = w ↔ ∃ m, v = .map m ∧ Json.get m k = w := by
  cases v <;> simp [sub, Ne.symm hw]

/-- A geometry is read when its coordinates are doubles. -/
theorem geometry_isOk :
    (∃ m g, asMap v = .ok m ∧ Geometry.fromJson m = .ok g) ↔
      ∀ c ∈ coordinates v, ∃ x, c = .double x := by
  simp only [Geometry.fromJson, LocationResult.fromJson, ViewportResult.fromJson, bind_eq_ok,
    Json.assign_eq_ok, Json.asDouble_eq_ok, Json.asMap_eq_ok, Json.index_eq_ok]
  constructor
  · rintro ⟨m, g, rfl, loc, hloc, _, ⟨_, h₁, _, h₂, -⟩, vp, hvp, _,
      ⟨_, ⟨_, ⟨ne, hne, rfl⟩, h₃⟩, _, ⟨_, ⟨_, hne', rfl⟩, h₄⟩, _, ⟨_, ⟨sw, hsw, rfl⟩, h₅⟩, _,
        ⟨_, ⟨_, hsw', rfl⟩, h₆⟩, -⟩, -⟩
    rw [hne] at hne'
    rw [hsw] at hsw'
    cases hne'
    cases hsw'
    simp [coordinates, hloc, hvp, hne, hsw, h₁, h₂, h₃, h₄, h₅, h₆]
  · intro h
    simp only [coordinates, List.forall_mem_cons, List.not_mem_nil, false_imp_iff,
      implies_true, and_true] at h
    obtain ⟨⟨lat, h₁⟩, ⟨lng, h₂⟩, ⟨neLat, h₃⟩, ⟨neLng, h₄⟩, ⟨swLat, h₅⟩, ⟨swLng, h₆⟩⟩ := h
    obtain ⟨loc, hloc, hlat⟩ := (sub_eq_iff (by simp)).mp h₁
    obtain ⟨m, hm, hloc⟩ := (sub_eq_iff (by simp)).mp hloc
    obtain ⟨ne, hne, hneLat⟩ := (sub_eq_iff (by simp)).mp h₃
    obtain ⟨sw, hsw, hswLat⟩ := (sub_eq_iff (by simp)).mp h₅
    obtain ⟨vp, hvp, hne⟩ := (sub_eq_iff (by simp)).mp hne
    simp only [hm, sub_map] at hvp hsw h₂ h₄ h₆
    simp only [hloc, sub_map] at h₂
    simp only [hvp, sub_map] at hsw
    simp only [hne, hsw, hvp, sub_map] at h₄ h₆
    exact ⟨m, _, hm, loc, hloc, _, ⟨lat, hlat, lng, h₂, rfl⟩, vp, hvp, _,
      ⟨neLat, ⟨_, ⟨ne, hne, rfl⟩, hneLat⟩, neLng, ⟨_, ⟨ne, hne, rfl⟩, h₄⟩, swLat,
        ⟨_, ⟨sw, hsw, rfl⟩, hswLat⟩, swLng, ⟨_, ⟨sw, hsw, rfl⟩, h₆⟩, rfl⟩, rfl⟩

/-- Opening hours are read when they have their text. -/
theorem weekDays_eq_ok {w : Option (List String)} :
    GooglePlace.fromJson.weekDays v = .ok w ↔
      (v = .null ∧ w = none) ∨
        ∃ m ts, v = .map m ∧ Json.get m "weekday_text" = .strs ts ∧ w = some ts := by
  unfold GooglePlace.fromJson.weekDays
  split
  · next h => simp [h, pure, Except.pure, eq_comm]
  · next h =>
    simp only [bind_eq_ok, Json.index_eq_ok, Json.assign_eq_ok, stringsFrom_eq_ok, h,
      false_and, false_or]
    constructor
    · rintro ⟨ts, ⟨_, ⟨m, rfl, rfl⟩, hts⟩, hw⟩
      cases hw
      exact ⟨m, ts, rfl, hts, rfl⟩
    · rintro ⟨m, ts, rfl, hts, rfl⟩
      exact ⟨ts, ⟨_, ⟨m, rfl, rfl⟩, hts⟩, rfl⟩

theorem listOrNull_eq_ok {w : Option (List Value)} :
    GooglePlace.fromJson.listOrNull v = .ok w ↔ v = Value.ofList? w := by
  unfold GooglePlace.fromJson.listOrNull
  split
  · next h => cases w <;> simp [h, pure, Except.pure, Value.ofList?]
  · next h =>
    simp only [bind_eq_ok, Json.listFrom_eq_ok]
    constructor
    · rintro ⟨vs, rfl, hw⟩
      cases hw
      rfl
    · rintro rfl
      cases w with
      | none => exact absurd rfl h
      | some vs => exact ⟨vs, rfl, rfl⟩

end Parts

section Conversions

variable {parsedJson : List (String × Value)} {types : List String}

/-- The test of the search looks at the first type. -/
theorem firstType_eq {c : Value} (h : IsComponent c) :
    (do
      let firstType ← Json.index c "types" >>= Json.head?
      return types.any fun type => firstType = .str type : Except Json.Thrown Bool) =
      .ok (hasType types c) := by
  obtain ⟨⟨t, ts, ht⟩, -⟩ := h
  obtain ⟨m, hm, hget⟩ := (sub_eq_iff (by simp)).mp ht
  subst hm
  simp [Json.index, hget, Json.head?, hasType, bind, Except.bind, pure, Except.pure]

/-- The search returns the short name of the first component of that type,
and throws when there is none. -/
theorem parseFromGooglePlace_eq_ok {g : GooglePlace} {cs : List Value} {r : Option String}
    (hg : g.addressComponents = some cs) (hcs : ∀ c ∈ cs, IsComponent c) :
    parseFromGooglePlace types g = .ok r ↔
      ∃ c s, cs.find? (hasType types) = some c ∧ sub c "short_name" = .str s ∧ r = some s := by
  rw [parseFromGooglePlace, hg]
  simp only [Json.firstWhere_eq fun c hc => firstType_eq (hcs c hc), bind_eq_ok]
  cases hfind : cs.find? (hasType types) with
  | none => simp
  | some c =>
    obtain ⟨-, s, hs⟩ := hcs c (List.mem_of_find?_eq_some hfind)
    obtain ⟨m, hm, hget⟩ := (sub_eq_iff (by simp)).mp hs
    subst hm
    simp only [Except.ok.injEq, exists_eq_left', Json.index_map, Json.assign_eq_ok, hget,
      asString?_eq_ok, Option.some.injEq]
    cases r <;> simp [Value.ofString?, hget, eq_comm]

/-- When a result is read, and as what. -/
theorem fromJson_eq_ok {g : GooglePlace} :
    GooglePlace.fromJson parsedJson = .ok g ↔
      Json.get parsedJson "formatted_phone_number" = .ofString? g.formattedPhoneNumber ∧
      Json.get parsedJson "vicinity" = .ofString? g.formattedAddress ∧
      (∃ m geometry, asMap (Json.get parsedJson "geometry") = .ok m ∧
        Geometry.fromJson m = .ok geometry ∧ g.geometry = some geometry) ∧
      Json.get parsedJson "name" = .ofString? g.name ∧
      Json.get parsedJson "place_id" = .ofString? g.placeId ∧
      (∃ ts, Json.get parsedJson "types" = .arr (.ofString? g.type :: ts)) ∧
      Json.get parsedJson "icon" = .ofString? g.icon ∧
      Json.get parsedJson "rating" = .ofDouble? g.rating ∧
      (∃ cs, Json.get parsedJson "address_components" = .arr cs ∧
        g.addressComponents = some cs) ∧
      GooglePlace.fromJson.weekDays (Json.get parsedJson "opening_hours") = .ok g.weekDayText ∧
      (∃ photos, Json.get parsedJson "photos" = .arr photos ∧ g.photos = some photos) ∧
      Json.get parsedJson "url" = .ofString? g.url ∧
      Json.get parsedJson "reviews" = Value.ofList? g.reviews ∧
      Json.get parsedJson "website" = .ofString? g.website := by
  simp only [GooglePlace.fromJson, bind_eq_ok, Json.assign_eq_ok, asString?_eq_ok,
    asDouble?_eq_ok, Json.listFrom_eq_ok, Json.first_eq_ok, listOrNull_eq_ok]
  constructor
  · rintro ⟨_, h₁, _, h₂, m, hm, geo, hgeo, _, h₃, _, h₄, types, htypes, _, ⟨_, hfirst, rfl⟩, _,
      h₅, _, h₆, cs, hcs, _, h₇, photos, hphotos, _, h₈, _, h₉, _, h₁₀, hg⟩
    cases hg
    obtain ⟨ts, rfl⟩ := List.head?_eq_some_iff.mp hfirst
    exact ⟨h₁, h₂, ⟨m, geo, hm, hgeo, rfl⟩, h₃, h₄, ⟨ts, htypes⟩, h₅, h₆, ⟨cs, hcs, rfl⟩, h₇,
      ⟨photos, hphotos, rfl⟩, h₈, h₉, h₁₀⟩
  · rintro ⟨h₁, h₂, ⟨m, geo, hm, hgeo, hgeo'⟩, h₃, h₄, ⟨ts, htypes⟩, h₅, h₆, ⟨cs, hcs, hcs'⟩, h₇,
      ⟨photos, hphotos, hphotos'⟩, h₈, h₉, h₁₀⟩
    refine ⟨_, h₁, _, h₂, m, hm, geo, hgeo, _, h₃, _, h₄, _, htypes, _, ⟨_, rfl, rfl⟩, _, h₅, _,
      h₆, cs, hcs, _, h₇, photos, hphotos, _, h₈, _, h₉, _, h₁₀, ?_⟩
    obtain ⟨_, _, _, _, _, _, _, _, _, _, _, _, _, _⟩ := g
    cases hgeo'
    cases hcs'
    cases hphotos'
    rfl

/-- When a result that was read is made a place, and which. -/
theorem fromGooglePlace_eq_ok {g : GooglePlace} {p : Place} :
    Place.fromGooglePlace g = .ok p ↔
      parseCityFromGooglePlace g = .ok p.city ∧ parseStateFromGooglePlace g = .ok p.state ∧
        Place.fromGooglePlace.mainPhotoOf g.photos = .ok p.mainPhoto ∧
        p.placeId = g.placeId ∧ p.name = g.name ∧ p.type = g.type ∧ p.website = g.website ∧
        p.rating = g.rating ∧ p.address = g.formattedAddress ∧
        p.phoneNumber = g.formattedPhoneNumber ∧ p.icon = g.icon ∧ p.mapsUrl = g.url ∧
        p.hours = g.weekDayText.map (fun text => text.map .str) ∧ p.reviews = g.reviews ∧
        p.photos = g.photos := by
  simp only [Place.fromGooglePlace, bind_eq_ok]
  constructor
  · rintro ⟨_, hcity, _, hstate, _, hphoto, hp⟩
    cases hp
    exact ⟨hcity, hstate, hphoto, rfl, rfl, rfl, rfl, rfl, rfl, rfl, rfl, rfl, rfl, rfl, rfl⟩
  · rintro ⟨hcity, hstate, hphoto, h₁, h₂, h₃, h₄, h₅, h₆, h₇, h₈, h₉, h₁₀, h₁₁, h₁₂⟩
    refine ⟨_, hcity, _, hstate, _, hphoto, ?_⟩
    obtain ⟨_, _, _, _, _, _, _, _, _, _, _, _, _, _, _⟩ := p
    simp only at h₁ h₂ h₃ h₄ h₅ h₆ h₇ h₈ h₉ h₁₀ h₁₁ h₁₂
    subst h₁ h₂ h₃ h₄ h₅ h₆ h₇ h₈ h₉ h₁₀ h₁₁ h₁₂
    rfl

theorem stringAt_eq {k : String} {x : Option String} (h : Json.get parsedJson k = .ofString? x) :
    stringAt parsedJson k = x := by
  cases x <;> simp [stringAt, h, asString?, Value.ofString?, Except.toOption]

/-- What the search finds is the short name that the specification names. -/
theorem shortNameOf_eq {cs : List Value} {c : Value} {s : String}
    (hcs : Json.get parsedJson "address_components" = .arr cs)
    (hfind : cs.find? (hasType types) = some c) (hs : sub c "short_name" = .str s) :
    shortNameOf types parsedJson = some s := by
  simp [shortNameOf, components, hcs, hfind, hs, asString?, Except.toOption]

end Conversions

/-! ## Well-formed results -/

section WellFormed

variable {parsedJson : List (String × Value)} {g : GooglePlace} {p : Place}

/-- A rating is read when it is no `int`. -/
theorem WellFormed.rating_iff (h : WellFormed parsedJson) :
    (∃ x, Json.get parsedJson "rating" = Value.ofDouble? x) ↔
      ∀ i, Json.get parsedJson "rating" ≠ .int i := by
  constructor
  · rintro ⟨x, hx⟩ i
    cases x <;> simp [hx, Value.ofDouble?]
  · intro hint
    rcases h.rating with hnull | hnumber
    · exact ⟨none, hnull⟩
    · cases hv : Json.get parsedJson "rating" with
      | double x => exact ⟨some x, rfl⟩
      | int i => exact absurd hv (hint i)
      | _ => rw [hv] at hnumber; cases hnumber

/-- Opening hours are read when they are missing or have their text. -/
theorem WellFormed.weekDays_iff (h : WellFormed parsedJson) :
    (∃ w, GooglePlace.fromJson.weekDays (Json.get parsedJson "opening_hours") = .ok w) ↔
      (Json.get parsedJson "opening_hours" ≠ .null →
        sub (Json.get parsedJson "opening_hours") "weekday_text" ≠ .null) := by
  simp only [weekDays_eq_ok]
  constructor
  · rintro ⟨w, ⟨hnull, -⟩ | ⟨m, ts, hm, hts, -⟩⟩ hne
    · exact absurd hnull hne
    · simp [hm, hts, Value.strs]
  · intro htext
    rcases h.openingHours with hnull | ⟨m, text, hm, hts⟩
    · exact ⟨none, .inl ⟨hnull, rfl⟩⟩
    · have hne := htext (by simp [hm])
      rw [hm, sub_map, hts] at hne
      cases text with
      | none => exact absurd rfl hne
      | some ts => exact ⟨some ts, .inr ⟨m, ts, hm, hts, rfl⟩⟩

/-- A savable result is read. -/
theorem Savable.read (h : WellFormed parsedJson) (hs : Savable parsedJson) :
    ∃ g, GooglePlace.fromJson parsedJson = .ok g := by
  obtain ⟨name, hname⟩ := h.strings "name" (by simp [strings])
  obtain ⟨placeId, hplaceId⟩ := h.strings "place_id" (by simp [strings])
  obtain ⟨url, hurl⟩ := h.strings "url" (by simp [strings])
  obtain ⟨vicinity, hvicinity⟩ := h.strings "vicinity" (by simp [strings])
  obtain ⟨icon, hicon⟩ := h.strings "icon" (by simp [strings])
  obtain ⟨website, hwebsite⟩ := h.strings "website" (by simp [strings])
  obtain ⟨phone, hphone⟩ := h.strings "formatted_phone_number" (by simp [strings])
  obtain ⟨t, ts, htypes⟩ := h.types
  obtain ⟨m, geometry, hm, hgeometry⟩ := geometry_isOk.mpr hs.coordinates
  obtain ⟨cs, hcs, -⟩ := h.addressComponents
  obtain ⟨rating, hrating⟩ := h.rating_iff.mpr hs.rating
  obtain ⟨weekDayText, hweek⟩ := h.weekDays_iff.mpr hs.weekdayText
  obtain ⟨reviews, hreviews⟩ := h.reviews
  obtain ⟨photo, photos, hphotos⟩ := hs.photo
  refine ⟨{
    formattedPhoneNumber := phone, formattedAddress := vicinity, geometry := some geometry,
    name := name, placeId := placeId, type := some t, icon := icon, rating := rating,
    addressComponents := some cs, weekDayText := weekDayText, photos := some (photo :: photos),
    url := url, reviews := reviews, website := website }, fromJson_eq_ok.mpr ?_⟩
  exact ⟨hphone, hvicinity, ⟨m, geometry, hm, hgeometry, rfl⟩, hname, hplaceId, ⟨_, htypes⟩, hicon,
    hrating, ⟨cs, hcs, rfl⟩, hweek, ⟨_, hphotos, rfl⟩, hurl, hreviews, hwebsite⟩

/-- The search for a short name in a result that was read. -/
theorem WellFormed.parse_eq_ok (h : WellFormed parsedJson)
    (hg : GooglePlace.fromJson parsedJson = .ok g) {types : List String} {r : Option String} :
    parseFromGooglePlace types g = .ok r ↔
      (∃ c ∈ components parsedJson, hasType types c = true) ∧ r = shortNameOf types parsedJson := by
  obtain ⟨cs, hcs, hcomponents⟩ := h.addressComponents
  obtain ⟨-, -, -, -, -, -, -, -, ⟨cs', hcs', hg⟩, -⟩ := fromJson_eq_ok.mp hg
  obtain rfl : cs = cs' := by simpa [hcs] using hcs'
  rw [parseFromGooglePlace_eq_ok hg hcomponents, components, hcs, elems_arr, ← List.find?_isSome,
    Option.isSome_iff_exists]
  constructor
  · rintro ⟨c, s, hfind, hs, rfl⟩
    exact ⟨⟨c, hfind⟩, (shortNameOf_eq hcs hfind hs).symm⟩
  · rintro ⟨⟨c, hfind⟩, rfl⟩
    obtain ⟨-, s, hs⟩ := hcomponents c (List.mem_of_find?_eq_some hfind)
    exact ⟨c, s, hfind, hs, shortNameOf_eq hcs hfind hs⟩

/-- There is a main photo when there is a photo. -/
theorem WellFormed.mainPhoto_iff (h : WellFormed parsedJson)
    (hg : GooglePlace.fromJson parsedJson = .ok g) :
    (∃ r, Place.fromGooglePlace.mainPhotoOf g.photos = .ok r) ↔
      ∃ v vs, Json.get parsedJson "photos" = .arr (v :: vs) := by
  obtain ⟨vs, hvs, hphoto⟩ := h.photos
  obtain ⟨-, -, -, -, -, -, -, -, -, -, ⟨photos, hphotos, hg⟩, -⟩ := fromJson_eq_ok.mp hg
  rw [hg, hphotos]
  obtain rfl : vs = some photos := by
    cases vs with
    | none => simp [hphotos, Value.ofList?] at hvs
    | some vs => simpa [hphotos, Value.ofList?, eq_comm] using hvs
  cases photos with
  | nil => simp [Place.fromGooglePlace.mainPhotoOf]
  | cons v vs =>
    obtain ⟨m, s, rfl, hs⟩ := hphoto v List.mem_cons_self
    simp [Place.fromGooglePlace.mainPhotoOf, Json.index, hs, Json.assign, asString?, bind,
      Except.bind]

/-- A result that is read and made a place is savable. -/
theorem savable_of_ok (h : WellFormed parsedJson)
    (hg : GooglePlace.fromJson parsedJson = .ok g) (hp : Place.fromGooglePlace g = .ok p) :
    Savable parsedJson := by
  obtain ⟨hcity, hstate, hphoto, -⟩ := fromGooglePlace_eq_ok.mp hp
  obtain ⟨-, -, ⟨m, geometry, hm, hgeometry, -⟩, -, -, -, -, hrating, -, hweek, -⟩ :=
    fromJson_eq_ok.mp hg
  constructor
  case coordinates => exact geometry_isOk.mp ⟨m, geometry, hm, hgeometry⟩
  case rating => exact h.rating_iff.mp ⟨_, hrating⟩
  case weekdayText => exact h.weekDays_iff.mp ⟨_, hweek⟩
  case photo => exact (h.mainPhoto_iff hg).mp ⟨_, hphoto⟩
  case city => exact ((h.parse_eq_ok hg).mp hcity).1
  case state => exact ((h.parse_eq_ok hg).mp hstate).1

/-- A savable result that was read is made a place. -/
theorem Savable.place (h : WellFormed parsedJson) (hs : Savable parsedJson)
    (hg : GooglePlace.fromJson parsedJson = .ok g) : ∃ p, Place.fromGooglePlace g = .ok p := by
  obtain ⟨mainPhoto, hphoto⟩ := (h.mainPhoto_iff hg).mpr hs.photo
  have hcity : parseCityFromGooglePlace g = .ok (shortNameOf cityTypes parsedJson) :=
    (h.parse_eq_ok hg).mpr ⟨hs.city, rfl⟩
  have hstate : parseStateFromGooglePlace g = .ok (shortNameOf stateTypes parsedJson) :=
    (h.parse_eq_ok hg).mpr ⟨hs.state, rfl⟩
  exact ⟨_, bind_eq_ok.mpr ⟨_, hcity, bind_eq_ok.mpr ⟨_, hstate, bind_eq_ok.mpr
    ⟨_, hphoto, rfl⟩⟩⟩⟩

/-- A place that was made is the result, field by field. -/
theorem savedAs_of_ok (h : WellFormed parsedJson)
    (hg : GooglePlace.fromJson parsedJson = .ok g) (hp : Place.fromGooglePlace g = .ok p) :
    SavedAs parsedJson p := by
  obtain ⟨hcity, hstate, hphoto, hplaceId', hname', -, hwebsite', hrating', haddress', hphone',
    hicon', hurl', hhours', hreviews', hphotos'⟩ := fromGooglePlace_eq_ok.mp hp
  obtain ⟨hphone, hvicinity, -, hname, hplaceId, -, hicon, hrating, -, hweek,
    ⟨photos, hphotos, -⟩, hurl, hreviews, hwebsite⟩ := fromJson_eq_ok.mp hg
  constructor
  case placeId => rw [hplaceId', stringAt_eq hplaceId]
  case name => rw [hname', stringAt_eq hname]
  case website => rw [hwebsite', stringAt_eq hwebsite]
  case address => rw [haddress', stringAt_eq hvicinity]
  case phoneNumber => rw [hphone', stringAt_eq hphone]
  case icon => rw [hicon', stringAt_eq hicon]
  case mapsUrl => rw [hurl', stringAt_eq hurl]
  case rating =>
    intro hnull
    rw [hrating']
    cases hx : g.rating with
    | none => rfl
    | some x => simp [hx, hnull, Value.ofDouble?] at hrating
  case hours =>
    intro hnull
    rw [hhours']
    rcases weekDays_eq_ok.mp hweek with ⟨-, hnone⟩ | ⟨m, ts, hm, hts, -⟩
    · rw [hnone, Option.map_none]
    · simp [hm, hts, Value.strs] at hnull
  case reviews =>
    intro hnull
    rw [hreviews']
    cases hx : g.reviews with
    | none => rfl
    | some vs => simp [hx, hnull, Value.ofList?] at hreviews
  case photos =>
    intro hnull
    simp [hphotos] at hnull
  case city => exact ((h.parse_eq_ok hg).mp hcity).2
  case state => exact ((h.parse_eq_ok hg).mp hstate).2

end WellFormed

/-- A well-formed result becomes a place, saved as it is, just when it is
savable. -/
theorem saved_iff (parsedJson : List (String × Value)) (h : WellFormed parsedJson) :
    (∃ g p, GooglePlace.fromJson parsedJson = .ok g ∧ Place.fromGooglePlace g = .ok p ∧
      SavedAs parsedJson p) ↔ Savable parsedJson := by
  constructor
  · rintro ⟨g, p, hg, hp, -⟩
    exact savable_of_ok h hg hp
  · intro hs
    obtain ⟨g, hg⟩ := hs.read h
    obtain ⟨p, hp⟩ := hs.place h hg
    exact ⟨g, p, hg, hp, savedAs_of_ok h hg hp⟩

/-- The result for a museum in Rome, with a given rating. -/
def museum (rating : Value) : List (String × Value) :=
  let point : Value := .map [("lat", .double 0), ("lng", .double 0)]
  [("name", .str "Museum"), ("place_id", .str "p1"), ("types", .strs ["museum"]),
    ("rating", rating),
    ("geometry", .map [("location", point),
      ("viewport", .map [("northeast", point), ("southwest", point)])]),
    ("address_components", .arr [
      .map [("types", .strs ["locality"]), ("short_name", .str "Rome")],
      .map [("types", .strs ["administrative_area_level_1"]), ("short_name", .str "RM")]]),
    ("photos", .arr [.map [("photo_reference", .str "r1")]])]

theorem museum_wellFormed {rating : Value} (h : rating = .null ∨ IsNumber rating) :
    WellFormed (museum rating) := by
  constructor
  case strings =>
    intro k hk
    simp only [strings, List.mem_cons, List.not_mem_nil, or_false] at hk
    rcases hk with rfl | rfl | rfl | rfl | rfl | rfl | rfl
    · exact ⟨some "Museum", rfl⟩
    · exact ⟨some "p1", rfl⟩
    all_goals exact ⟨none, rfl⟩
  case types => exact ⟨"museum", [], rfl⟩
  case geometry =>
    intro c hc
    have hdouble : c = .double 0 := by
      simpa [coordinates, museum, Json.get, sub, List.lookup_cons] using hc
    exact hdouble ▸ .double 0
  case addressComponents =>
    refine ⟨_, rfl, ?_⟩
    intro c hc
    simp only [List.mem_cons, List.not_mem_nil, or_false] at hc
    rcases hc with rfl | rfl
    · exact ⟨⟨_, _, rfl⟩, _, rfl⟩
    · exact ⟨⟨_, _, rfl⟩, _, rfl⟩
  case rating => exact h
  case openingHours => exact .inl rfl
  case reviews => exact ⟨none, rfl⟩
  case photos =>
    refine ⟨some _, rfl, ?_⟩
    intro v hv
    obtain rfl := List.mem_singleton.mp hv
    exact ⟨_, "r1", rfl, rfl⟩

/-- A rating that was written with a fraction is a double. -/
theorem museum_savable : Savable (museum (.double 0)) where
  coordinates := by
    intro c hc
    have hdouble : c = .double 0 := by
      simpa [coordinates, museum, Json.get, sub, List.lookup_cons] using hc
    exact ⟨0, hdouble⟩
  rating i := by simp [museum, Json.get, List.lookup_cons]
  weekdayText hne := absurd rfl hne
  photo := ⟨_, [], rfl⟩
  city := ⟨_, List.mem_cons_self, rfl⟩
  state := ⟨_, List.mem_cons_of_mem _ List.mem_cons_self, rfl⟩

theorem saved_iff_museum :
    ∃ g p, GooglePlace.fromJson (museum (.double 0)) = .ok g ∧
      Place.fromGooglePlace g = .ok p ∧ SavedAs (museum (.double 0)) p :=
  (saved_iff _ (museum_wellFormed (.inr (.double 0)))).mpr museum_savable

/-- The rating 4, with no fraction, is an `int`, which is not a `double`. -/
theorem int_rating_not_saved :
    ¬ ∀ parsedJson : List (String × Value), WellFormed parsedJson →
      ∃ g p, GooglePlace.fromJson parsedJson = .ok g ∧ Place.fromGooglePlace g = .ok p ∧
        SavedAs parsedJson p := by
  intro h
  obtain ⟨g, -, hg, -⟩ := h (museum (.int 4)) (museum_wellFormed (.inr (.int 4)))
  have hthrows : GooglePlace.fromJson (museum (.int 4)) = .error .typeError := by decide
  rw [hthrows] at hg
  cases hg

end PlaceDetails

end GottaGo
