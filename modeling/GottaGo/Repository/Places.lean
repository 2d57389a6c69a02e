/-
GottaGo.Repository.Places — `PlacesRepository`
(`lib/repository/places_repository.dart`) and `PlaceSearch.fromJson`
(`lib/model/place_search.dart`).

A request is a URL that is put together with the text that is asked for as it
is. `Uri.parse` reads it, and so the service is told what the URL says, which
is the text only if it is plain (`Uri.Plain`): `sent` is what a call comes to
and `meant` what it would come to if the service were told the text itself,
and `sent_eq_meant_iff` says when no service can tell them apart.

The service is a parameter. It answers the parameters at an address with the
decoded body, or the request or the decoding throws. The key that the app was
built with is `mag`. `getAutoCompleteRegionsAndCities` is not called.
-/
import GottaGo.Bloc.Search
import GottaGo.Text.Uri

namespace GottaGo

open GottaGo.Firestore

def PlaceSearch.fromJson (json : List (String × Value)) : Except Json.Thrown PlaceSearch := do
  let description ← Json.assign asString? (Json.get json "description")
  let placeId ← Json.assign asString? (Json.get json "place_id")
  return { description := description, placeId := placeId }

/-- What is answered to the parameters at an address; the parameters are none
where the query cannot be read. -/
abbrev PlacesService := String → Option (List (String × String)) → Except Json.Thrown Value

namespace PlacesRepository

/-- `json['predictions']`, each a suggestion. -/
def predictions (json : Value) : Except Json.Thrown (List PlaceSearch) := do
  let jsonResults ← Json.index json "predictions" >>= Json.listFrom
  jsonResults.mapM fun e => Json.assign asMap e >>= PlaceSearch.fromJson

/-- `json['result']`, a place. -/
def place (json : Value) : Except Json.Thrown GooglePlace := do
  let jsonResults ← Json.index json "result" >>= Json.assign asMap
  GooglePlace.fromJson jsonResults

def autocompleteJson : String := "https://maps.googleapis.com/maps/api/place/autocomplete/json"

def detailsJson : String := "https://maps.googleapis.com/maps/api/place/details/json"

section Calls

variable (mag : String) (service : PlacesService)

/-- `http.get(Uri.parse(url))` and `jsonDecode(response.body)`. -/
def get (url : String) : Except Json.Thrown Value := service (Uri.address url) (Uri.queryPairs url)

def autocompleteUrl (search : String) : String :=
  s!"https://maps.googleapis.com/maps/api/place/autocomplete/json?input={search}&types=establishment&key={mag}"

def detailsUrl (placeId : String) : String :=
  s!"https://maps.googleapis.com/maps/api/place/details/json?key={mag}&place_id={placeId}"

def getAutoComplete (search : String) : Except Json.Thrown (List PlaceSearch) :=
  get service (autocompleteUrl mag search) >>= predictions

def getPlace (placeId : String) : Except Json.Thrown GooglePlace :=
  get service (detailsUrl mag placeId) >>= place

end Calls

end PlacesRepository

/-- The ids of the service are plain. -/
def PlacesService.PlainIds (service : PlacesService) : Prop :=
  ∀ address parameters json results, service address parameters = .ok json →
    PlacesRepository.predictions json = .ok results →
    ∀ result ∈ results, ∀ placeId, result.placeId = some placeId → Uri.Plain placeId.toList

/-! ## What the service is told -/

namespace PlacesCall

/-- The text that is asked for. -/
def text : PlacesCall → String
  | .getAutoComplete search => search
  | .getPlace placeId => placeId

def url (mag : String) : PlacesCall → String
  | .getAutoComplete search => PlacesRepository.autocompleteUrl mag search
  | .getPlace placeId => PlacesRepository.detailsUrl mag placeId

def address : PlacesCall → String
  | .getAutoComplete _ => PlacesRepository.autocompleteJson
  | .getPlace _ => PlacesRepository.detailsJson

/-- The parameters that the call is about. -/
def parameters (mag : String) : PlacesCall → List (String × String)
  | .getAutoComplete search => [("input", search), ("types", "establishment"), ("key", mag)]
  | .getPlace placeId => [("key", mag), ("place_id", placeId)]

/-- How the body of an answer is read. -/
def read : (call : PlacesCall) → Value → Except Json.Thrown call.Answer
  | .getAutoComplete _ => PlacesRepository.predictions
  | .getPlace _ => PlacesRepository.place

end PlacesCall

namespace PlacesRepository

/-- What a call comes to. -/
def sent (mag : String) (service : PlacesService) :
    (call : PlacesCall) → Except Json.Thrown call.Answer
  | .getAutoComplete search => getAutoComplete mag service search
  | .getPlace placeId => getPlace mag service placeId

/-- What it would come to if the service were told the text itself. -/
def meant (mag : String) (service : PlacesService) (call : PlacesCall) :
    Except Json.Thrown call.Answer :=
  service call.address (some (call.parameters mag)) >>= call.read

end PlacesRepository

namespace PlacesRepository

variable (mag : String)

theorem autocompleteUrl_eq (search : String) :
    autocompleteUrl mag search =
      autocompleteJson ++ "?" ++ "input" ++ "=" ++ search ++ "&" ++ "types" ++ "=" ++
        "establishment" ++ "&" ++ "key" ++ "=" ++ mag := by
  show "https://maps.googleapis.com/maps/api/place/autocomplete/json?input=" ++ search ++
    "&types=establishment&key=" ++ mag = _
  simp [autocompleteJson, String.append_assoc]

theorem detailsUrl_eq (placeId : String) :
    detailsUrl mag placeId =
      detailsJson ++ "?" ++ "key" ++ "=" ++ mag ++ "&" ++ "place_id" ++ "=" ++ placeId := by
  show "https://maps.googleapis.com/maps/api/place/details/json?key=" ++ mag ++
    "&place_id=" ++ placeId = _
  simp [detailsJson, String.append_assoc]

end PlacesRepository

namespace PlacesCall

variable (mag : String) (call : PlacesCall)

/-- A URL is the address and the parameters, as they are. -/
theorem url_eq : call.url mag =
    String.ofList (call.address.toList ++ '?' :: Uri.raw (call.parameters mag)) := by
  have hquestion : "?".toList = ['?'] := rfl
  have hequal : "=".toList = ['='] := rfl
  have hamp : "&".toList = ['&'] := rfl
  apply String.toList_inj.mp
  cases call with
  | getAutoComplete search =>
    rw [url, PlacesRepository.autocompleteUrl_eq]
    simp only [address, parameters, Uri.raw, String.toList_append, String.toList_ofList,
      hquestion, hequal, hamp, List.append_assoc, List.cons_append, List.nil_append]
  | getPlace placeId =>
    rw [url, PlacesRepository.detailsUrl_eq]
    simp only [address, parameters, Uri.raw, String.toList_append, String.toList_ofList,
      hquestion, hequal, hamp, List.append_assoc, List.cons_append, List.nil_append]

/-- Nothing of an address ends it. -/
theorem goesOn_address : ∀ c ∈ call.address.toList, c ≠ '?' ∧ c ≠ '#' := by
  have hall : call.address.toList.all (fun c => c ≠ '?' ∧ c ≠ '#') = true := by
    cases call with
    | getAutoComplete search =>
      show PlacesRepository.autocompleteJson.toList.all _ = true
      decide
    | getPlace placeId =>
      show PlacesRepository.detailsJson.toList.all _ = true
      decide
  exact fun c hc => of_decide_eq_true (List.all_eq_true.mp hall c hc)

theorem name_parameters : ∀ kv ∈ call.parameters mag, Uri.Name kv.1.toList := by
  cases call with
  | getAutoComplete search =>
    simp only [parameters, List.forall_mem_cons, List.not_mem_nil, false_implies, implies_true,
      and_true]
    decide
  | getPlace placeId =>
    simp only [parameters, List.forall_mem_cons, List.not_mem_nil, false_implies, implies_true,
      and_true]
    decide

theorem address_url : Uri.address (call.url mag) = call.address := by
  have hgoes : ∀ c ∈ call.address.toList, decide (c ≠ '?' ∧ c ≠ '#') = true := fun c hc =>
    decide_eq_true (goesOn_address call c hc)
  rw [url_eq, Uri.address, String.toList_ofList, List.takeWhile_append_of_pos hgoes]
  simp

/-- The URL says the parameters just when the text and the key are plain. -/
theorem queryPairs_url_iff : Uri.queryPairs (call.url mag) = some (call.parameters mag) ↔
    Uri.Plain call.text.toList ∧ Uri.Plain mag.toList := by
  have hash : '#' ∉ call.address.toList := fun hc => (goesOn_address call _ hc).2 rfl
  have question : '?' ∉ call.address.toList := fun hc => (goesOn_address call _ hc).1 rfl
  have hestablishment : Uri.Plain "establishment".toList := by decide
  rw [url_eq, Uri.queryPairs_eq_iff hash question (name_parameters mag call)]
  cases call with
  | getAutoComplete search =>
    simp only [parameters, text, List.forall_mem_cons, List.not_mem_nil, false_implies,
      implies_true, and_true, hestablishment, true_and]
  | getPlace placeId =>
    simp only [parameters, text, List.forall_mem_cons, List.not_mem_nil, false_implies,
      implies_true, and_true]
    exact and_comm

example : Uri.queryPairs (PlacesRepository.autocompleteUrl "key" "Ben & Jerry's") =
    some [("input", "Ben "), (" Jerry's", ""), ("types", "establishment"), ("key", "key")] := by
  decide

end PlacesCall

namespace PlacesRepository

variable (mag : String) (call : PlacesCall)

theorem sent_eq (service : PlacesService) :
    sent mag service call =
      service call.address (Uri.queryPairs (call.url mag)) >>= call.read := by
  rw [← PlacesCall.address_url mag call]
  cases call <;> rfl

/-- A service that throws one thing at the parameters and another at all
else. -/
def particular (parameters : List (String × String)) : PlacesService := fun _ told =>
  if told = some parameters then .error .rangeError else .error .stateError

theorem plainIds_particular (parameters : List (String × String)) :
    (particular parameters).PlainIds := by
  intro address told json results h
  unfold particular at h
  split at h <;> cases h

theorem meant_particular :
    meant mag (particular (call.parameters mag)) call = .error .rangeError := by
  simp only [meant, particular, if_pos]
  rfl

theorem sent_particular : sent mag (particular (call.parameters mag)) call =
    .error (if Uri.Plain call.text.toList ∧ Uri.Plain mag.toList then .rangeError
      else .stateError) := by
  rw [sent_eq, particular]
  simp only [PlacesCall.queryPairs_url_iff]
  split <;> rfl

/-- No service can tell a call from one that tells the text itself, just when
the text and the key are plain. -/
theorem sent_eq_meant_iff :
    (∀ service, sent mag service call = meant mag service call) ↔
      Uri.Plain call.text.toList ∧ Uri.Plain mag.toList := by
  constructor
  · intro h
    have hsame := h (particular (call.parameters mag))
    rw [sent_particular, meant_particular] at hsame
    by_contra hplain
    rw [if_neg hplain] at hsame
    cases hsame
  · intro h service
    rw [sent_eq, (PlacesCall.queryPairs_url_iff mag call).mpr h, meant]

end PlacesRepository

end GottaGo
