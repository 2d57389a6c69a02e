/-
GottaGo.Explore.Sought — the place that a load of `ExploreBloc` finds, and the
place that the chat service named.

The name, the city and the state that the chat service answers are put into
the URL of a search as they are (`ExploreBloc.searchFor`). So the place that
is shown is one for the name only if all three are plain; the name
`Ben & Jerry's` is searched for as `Ben `. `explore_told_iff` says when a load
comes to the same, whatever the service, as if it had told the service the
texts themselves.
-/
import GottaGo.Explore.Loads
import GottaGo.Repository.Places

namespace GottaGo

open GottaGo.Async GottaGo.Firestore

namespace ExploreBloc

/-- The chat service names `gptPlace`, and a call of `PlacesRepository` comes
to what `calls` says. -/
def named (gptPlace : GptPlace) (calls : (call : PlacesCall) → Except Json.Thrown call.Answer) :
    ExploreAnswer
  | .chatComplete _ _ => .ok (some gptPlace)
  | .places call => calls call

/-- The texts of a search are separated by commas. -/
theorem plain_searchFor_iff (gptPlace : GptPlace) :
    Uri.Plain (searchFor gptPlace).toList ↔ Uri.Plain gptPlace.name.toList ∧
      Uri.Plain gptPlace.city.toList ∧ Uri.Plain gptPlace.state.toList := by
  have hcomma : ", ".toList = [',', ' '] := rfl
  have hblank : ∀ t : List Char, Uri.Plain (' ' :: t) ↔ Uri.Plain t := fun t => by
    have hnil : Uri.Plain [] := by decide
    have hsplit : Uri.Plain ([] ++ ' ' :: t) ↔ Uri.Plain [] ∧ Uri.Plain t :=
      Uri.plain_append_cons_iff (by decide) (by decide)
    simpa [hnil] using hsplit
  simp only [searchFor, String.toList_append, hcomma, List.append_assoc, List.cons_append,
    List.nil_append]
  rw [Uri.plain_append_cons_iff (by decide) (by decide), hblank,
    Uri.plain_append_cons_iff (by decide) (by decide), hblank]

section Calls

variable {gptPlace : GptPlace} {calls calls' : (call : PlacesCall) → Except Json.Thrown call.Answer}

/-- Only two calls count: the search, and that for the place of its first
suggestion. -/
theorem explore_result_congr (prompt : String)
    (hsearch : calls (.getAutoComplete (searchFor gptPlace)) =
      calls' (.getAutoComplete (searchFor gptPlace)))
    (hplace : ∀ result results placeId,
      calls (.getAutoComplete (searchFor gptPlace)) = .ok (result :: results) →
      result.placeId = some placeId → calls (.getPlace placeId) = calls' (.getPlace placeId)) :
    (explore prompt).result (named gptPlace calls) =
      (explore prompt).result (named gptPlace calls') := by
  simp only [explore, Prog.bind_eq, Prog.result_bind, Prog.result_await, named, ← hsearch]
  cases hresults : calls (.getAutoComplete (searchFor gptPlace)) with
  | error e => rfl
  | ok results =>
    cases results with
    | nil => rfl
    | cons result results =>
      cases hid : result.placeId with
      | none => simp [firstPlaceId, hid]
      | some placeId =>
        have hsame := hplace result results placeId hresults hid
        simp [firstPlaceId, hid, hsame]

theorem explore_result_of_throws (prompt : String) {e : Json.Thrown}
    (h : calls (.getAutoComplete (searchFor gptPlace)) = .error e) :
    (explore prompt).result (named gptPlace calls) = .error e := by
  simp [explore, named, h]

end Calls

/-- Whatever the service, a load comes to the same as if the service were told
the texts that the chat service named, just when these are plain. -/
theorem explore_told_iff {mag : String} (hmag : Uri.Plain mag.toList) (prompt : String)
    (gptPlace : GptPlace) :
    (∀ service : PlacesService, service.PlainIds →
      (explore prompt).result (named gptPlace (PlacesRepository.sent mag service)) =
        (explore prompt).result (named gptPlace (PlacesRepository.meant mag service))) ↔
      Uri.Plain gptPlace.name.toList ∧ Uri.Plain gptPlace.city.toList ∧
        Uri.Plain gptPlace.state.toList := by
  rw [← plain_searchFor_iff]
  let search : PlacesCall := .getAutoComplete (searchFor gptPlace)
  constructor
  · intro h
    have hsame := h (PlacesRepository.particular (search.parameters mag))
      (PlacesRepository.plainIds_particular _)
    rw [explore_result_of_throws prompt (PlacesRepository.sent_particular mag search),
      explore_result_of_throws prompt (PlacesRepository.meant_particular mag search)] at hsame
    by_contra hplain
    rw [if_neg fun hboth => hplain hboth.1] at hsame
    cases hsame
  · intro hplain service hids
    have hsearch := (PlacesRepository.sent_eq_meant_iff mag search).mpr ⟨hplain, hmag⟩ service
    refine explore_result_congr prompt hsearch fun result results placeId hresults hid => ?_
    have hanswer : PlacesRepository.meant mag service search = .ok (result :: results) :=
      hsearch.symm.trans hresults
    obtain ⟨json, hjson, hread⟩ := bind_eq_ok.mp hanswer
    have hplaceId := hids _ _ json _ hjson hread result List.mem_cons_self placeId hid
    exact (PlacesRepository.sent_eq_meant_iff mag (.getPlace placeId)).mpr ⟨hplaceId, hmag⟩ service

/-- A tea house whose texts are plain is looked for as it is named. -/
theorem explore_told_tea : Uri.Plain "key".toList ∧
    ∀ service : PlacesService, service.PlainIds →
      (explore "tea").result
          (named ExploreScreen.teaPlace (PlacesRepository.sent "key" service)) =
        (explore "tea").result
          (named ExploreScreen.teaPlace (PlacesRepository.meant "key" service)) := by
  have hkey : Uri.Plain "key".toList := by decide
  exact ⟨hkey, (explore_told_iff hkey "tea" ExploreScreen.teaPlace).mpr (by decide)⟩

end ExploreBloc

end GottaGo
