/-
GottaGo.Explore.Loads — the loads of `ExploreBloc` and the state it shows.

The page has no button while it is built for the loading state, and so it
seems that a load runs alone. Two things get in the way. The page may be
built for an older state when the button is pressed, and then a second load
starts beside the first. And a call that adds a place to a list may throw
while a load runs; the state is an error then, the buttons are back, and the
load is still under way. `keepsOne` promises that neither happens, and
`explore_loading_iff` says that it is exact: the state is loading just while
one load is under way, and none is otherwise, all along a run, just when the
run keeps it.

In such a run the state answers the last request (`explore_answers_last`):
what it shows was found for the texts of that request and its prompt.
-/
import GottaGo.Explore.Screen

namespace GottaGo

open GottaGo.Async GottaGo.Async.Events

namespace ExploreScreen

variable {resp : Nat → ExploreAnswer} {s s' : ExploreScreen} {m : ExploreMove}

/-! ## What a move does to the loads -/

/-- The lists and the thumbs after the Explore button. -/
def remembered (s : ExploreScreen) : Exploring :=
  (s.exploring.step .exploreButton).getD s.exploring

/-- The load that the Explore button starts. -/
def sent (s : ExploreScreen) : ExploreLoad :=
  let prompt := ExploreBloc.createExploreChatGPTQuery s.remembered.lists s.request.placeType
    s.locating.city s.locating.state
  { event := s.request
    leaving := s.remembered.page.map ExplorePage.name
    lists := s.remembered.lists
    prompt := prompt
    rest := ExploreBloc.explore prompt }

/-- A request of the page carries nothing that could be missing. -/
theorem onLoadExplore_request (lists : ExploreLists) :
    ExploreBloc.onLoadExplore s.request lists =
      (lists, .ok (ExploreBloc.createExploreChatGPTQuery lists s.request.placeType
        s.locating.city s.locating.state)) := rfl

theorem press_eq (s : ExploreScreen) :
    s.press =
      { s with
        state := .loading
        exploring := s.remembered
        loads := s.loads ++ [s.sent] } := by
  have hlists : ∀ e : Exploring, e.loadExplore s.request = e := fun e => rfl
  unfold press explored remembered sent
  cases hpage : s.exploring.step .exploreButton with
  | none => simp [loadExplore, onLoadExplore_request, hlists, remembered, hpage]
  | some exploring => simp [loadExplore, onLoadExplore_request, hlists, remembered, hpage]

theorem explored_eq_some {h : ExploreHappening} (hs : s.explored h = some s') :
    ∃ exploring, s.exploring.step h = some exploring ∧ s' = { s with exploring := exploring } := by
  obtain ⟨exploring, hstep, rfl⟩ := Option.map_eq_some_iff.mp hs
  exact ⟨exploring, hstep, rfl⟩

/-- A move either leaves the state and the loads alone, or it is one of
three. -/
theorem step_cases (h : s.step resp m = some s') :
    (s'.state = s.state ∧ s'.loads = s.loads ∧ m ≠ .explore ∧ (∀ i, m ≠ .added i false)) ∨
    (m = .explore ∧ s.HasButtons ∧ s' = s.press) ∨
    (∃ i, m = .added i false ∧ s'.state = ExploreBloc.noResponse ∧ s'.loads = s.loads) ∨
    ∃ i load rest, m = .answer i ∧ s.loads[i]? = some load ∧
      load.rest.answer? (resp i) = some rest ∧ s' = s.proceed i load rest := by
  cases m with
  | openPage =>
    simp only [step] at h
    split at h
    · obtain ⟨exploring, -, rfl⟩ := explored_eq_some h
      exact .inl ⟨rfl, rfl, nofun, nofun⟩
    · cases h
  | leavePage =>
    simp only [step] at h
    split at h
    · obtain ⟨exploring, -, rfl⟩ := explored_eq_some h
      exact .inl ⟨rfl, rfl, nofun, nofun⟩
    · cases h
  | build =>
    simp only [step] at h
    split at h
    · obtain ⟨exploring, -, rfl⟩ := explored_eq_some h
      exact .inl ⟨rfl, rfl, nofun, nofun⟩
    · cases h
  | typeSearch text =>
    simp only [step] at h
    split at h
    · cases h
      exact .inl ⟨rfl, rfl, nofun, nofun⟩
    · cases h
  | explore =>
    simp only [step] at h
    split at h
    · next hbuttons =>
      cases h
      exact .inr (.inl ⟨rfl, hbuttons, rfl⟩)
    · cases h
  | thumbDown =>
    simp only [step] at h
    split at h
    · obtain ⟨exploring, -, rfl⟩ := explored_eq_some h
      exact .inl ⟨rfl, rfl, nofun, nofun⟩
    · cases h
  | thumbUp =>
    simp only [step] at h
    split at h
    · obtain ⟨exploring, -, rfl⟩ := explored_eq_some h
      exact .inl ⟨rfl, rfl, nofun, nofun⟩
    · cases h
  | locate m =>
    simp only [step, locate] at h
    split at h
    · cases h
    · obtain ⟨locating, -, rfl⟩ := Option.map_eq_some_iff.mp h
      exact .inl ⟨rfl, rfl, nofun, nofun⟩
  | addPlaceToNewList place placeListName =>
    cases h
    exact .inl ⟨rfl, rfl, nofun, nofun⟩
  | added i ok =>
    simp only [step] at h
    split at h
    · cases h
      cases ok with
      | true => exact .inl ⟨rfl, rfl, nofun, nofun⟩
      | false => exact .inr (.inr (.inl ⟨i, rfl, rfl, rfl⟩))
    · cases h
  | answer i =>
    simp only [step, answer] at h
    split at h
    · next load hload =>
      obtain ⟨rest, hrest, rfl⟩ := Option.map_eq_some_iff.mp h
      exact .inr (.inr (.inr ⟨i, load, rest, rfl, hload, hrest, rfl⟩))
    · cases h

/-- What an answered load has come to. -/
theorem proceed_state (i : Nat) (load : ExploreLoad)
    (rest : ExploreProg (Option (GooglePlace × GptPlace))) (answer : ExploreAnswer) :
    (s.proceed i load rest).state =
      if rest.Ended then outcome load.event s.searchQuery (rest.result answer) else s.state := by
  cases rest <;> simp [proceed, Prog.Ended]

@[simp] theorem proceed_loads (i : Nat) (load : ExploreLoad)
    (rest : ExploreProg (Option (GooglePlace × GptPlace))) :
    (s.proceed i load rest).loads = s.loads.set i { load with rest := rest } := by
  cases rest <;> rfl

theorem outcome_ne_loading (event : LoadExplore) (searchQuery : String)
    (found : Except Json.Thrown (Option (GooglePlace × GptPlace))) :
    outcome event searchQuery found ≠ .loading := by
  unfold outcome ExploreBloc.noResponse
  split
  · split <;> exact nofun
  · exact nofun
  · exact nofun

/-! ## One load at a time -/

/-- How many loads are under way. -/
def inFlight (s : ExploreScreen) : Nat := s.loads.countP fun load => !decide load.rest.Ended

/-- The state is loading just while one load is under way, and none is
otherwise. -/
def OneLoad (s : ExploreScreen) : Prop := s.inFlight = if s.state = .loading then 1 else 0

/-- The promise of a run: the button is not pressed on a page that is built for
an older state while a load runs, and no call to add a place throws then. -/
def keepsOne (s : ExploreScreen) : ExploreMove → Bool
  | .explore => decide (s.state ≠ .loading)
  | .added _ ok => ok || decide (s.state ≠ .loading)
  | _ => true

theorem inFlight_press (s : ExploreScreen) : s.press.inFlight = s.inFlight + 1 := by
  have hnew : ¬ s.sent.rest.Ended := id
  rw [press_eq]
  simp [inFlight, List.countP_append, hnew]

theorem not_ended_of_answer {answer : ExploreAnswer}
    {t t' : ExploreProg (Option (GooglePlace × GptPlace))} (h : t.answer? answer = some t') :
    ¬ t.Ended := by
  cases t with
  | ret a => cases h
  | raise e => cases h
  | ask q k => exact id

/-- A load that is answered has been under way. -/
theorem inFlight_proceed {i : Nat} {load : ExploreLoad}
    {rest : ExploreProg (Option (GooglePlace × GptPlace))} (hload : s.loads[i]? = some load)
    (hrest : load.rest.answer? (resp i) = some rest) :
    (s.proceed i load rest).inFlight + 1 = s.inFlight + if rest.Ended then 0 else 1 := by
  obtain ⟨hlt, hget⟩ := List.getElem?_eq_some_iff.mp hload
  have hopen := not_ended_of_answer hrest
  have hpos : 0 < s.inFlight :=
    List.countP_pos_iff.mpr ⟨load, List.mem_of_getElem? hload, by simp [hopen]⟩
  have hset : (s.proceed i load rest).inFlight =
      s.inFlight - 1 + if rest.Ended then 0 else 1 := by
    simp [inFlight, List.countP_set, hlt, hget, hopen]
  omega

theorem oneLoad_step (hs : s.OneLoad) (h : s.step resp m = some s') :
    s'.OneLoad ↔ s.keepsOne m = true := by
  unfold OneLoad at hs ⊢
  rcases step_cases h with ⟨hstate, hloads, hpress, hadded⟩ | ⟨rfl, -, rfl⟩ |
    ⟨i, rfl, hstate, hloads⟩ | ⟨i, load, rest, rfl, hload, hrest, rfl⟩
  · have hkeeps : s.keepsOne m = true := by
      cases m with
      | explore => exact absurd rfl hpress
      | added i ok =>
        cases ok with
        | true => rfl
        | false => exact absurd rfl (hadded i)
      | _ => rfl
    rw [inFlight, hloads, hstate]
    exact iff_of_true hs hkeeps
  · rw [inFlight_press, press_eq, keepsOne]
    by_cases hload : s.state = .loading <;> simp [hs, hload]
  · have hsame : s'.inFlight = s.inFlight := by rw [inFlight, hloads, inFlight]
    rw [hsame, hstate, keepsOne, ExploreBloc.noResponse]
    by_cases hload : s.state = .loading <;> simp [hs, hload]
  · have hcount := inFlight_proceed hload hrest
    have hstate := proceed_state (s := s) i load rest (resp i)
    refine iff_of_true ?_ rfl
    by_cases hend : rest.Ended
    · rw [if_pos hend] at hstate hcount
      rw [hstate, if_neg (outcome_ne_loading _ _ _)]
      split at hs <;> omega
    · rw [if_neg hend] at hstate hcount
      rw [hstate]
      omega

/-- All along a run from the launch of the app, whatever the answers: the state
is loading just while one load is under way, and none is otherwise, just
when the run keeps the promise. -/
theorem explore_loading_iff (resp : Nat → ExploreAnswer) {ms : List ExploreMove}
    (h : (replay (step resp) free {} ms).isSome) :
    (∀ k t, replay (step resp) free {} (ms.take k) = some t → t.OneLoad) ↔
      (replay (step resp) keepsOne {} ms).isSome := by
  refine replay_promise_iff (J := fun _ => True) trivial rfl ?_ h
  intro s m s' _ hs hstep
  exact ⟨trivial, oneLoad_step hs hstep⟩

/-! ## The last request -/

/-- The chat service answers the prompt with `gptPlace`, and `googlePlace` are
the details of the first suggestion for it. -/
structure Finds (answer : ExploreAnswer) (prompt : String) (googlePlace : GooglePlace)
    (gptPlace : GptPlace) : Prop where
  chat : answer (.chatComplete [prompt] "User") = .ok (some gptPlace)
  found : ∃ result results placeId,
    answer (.places (.getAutoComplete (ExploreBloc.searchFor gptPlace))) =
      .ok (result :: results) ∧
    result.placeId = some placeId ∧ answer (.places (.getPlace placeId)) = .ok googlePlace

/-- A load comes to a place just when the services find it. -/
theorem explore_result_iff {answer : ExploreAnswer} {prompt : String} {googlePlace : GooglePlace}
    {gptPlace : GptPlace} :
    (ExploreBloc.explore prompt).result answer = .ok (some (googlePlace, gptPlace)) ↔
      Finds answer prompt googlePlace gptPlace := by
  constructor
  · intro h
    simp only [ExploreBloc.explore, Prog.bind_eq, Prog.result_bind, Prog.result_await] at h
    split at h
    · next found hchat =>
      cases found with
      | none => cases h
      | some gpt =>
        simp only [Prog.result_bind, Prog.result_await] at h
        split at h
        · next results hresults =>
          cases results with
          | nil => cases h
          | cons result results =>
            cases hid : result.placeId with
            | none => simp [ExploreBloc.firstPlaceId, hid] at h
            | some placeId =>
              simp only [ExploreBloc.firstPlaceId, hid, Prog.result_ret, Prog.pure_eq] at h
              split at h
              · next details hdetails =>
                cases h
                exact ⟨hchat, result, results, placeId, hresults, hid, hdetails⟩
              · cases h
        · cases h
    · cases h
  · rintro ⟨hchat, result, results, placeId, hresults, hid, hdetails⟩
    simp [ExploreBloc.explore, ExploreBloc.firstPlaceId, hchat, hresults, hid, hdetails]

/-- The load was started by the button: its prompt is that of its lists and
texts. -/
def Asked (load : ExploreLoad) : Prop :=
  ∃ placeType city state,
    load.event = { placeType := placeType, city := some city, state := some state } ∧
    load.prompt = ExploreBloc.createExploreChatGPTQuery load.lists placeType city state

theorem asked_sent (s : ExploreScreen) : Asked s.sent := ⟨_, _, _, rfl, rfl⟩

/-- Every load is one that the button has started. -/
theorem asked_step (hs : ∀ load ∈ s.loads, Asked load) (h : s.step resp m = some s') :
    ∀ load ∈ s'.loads, Asked load := by
  rcases step_cases h with ⟨-, hloads, -, -⟩ | ⟨rfl, -, rfl⟩ | ⟨i, -, -, hloads⟩ |
    ⟨i, load, rest, rfl, hload, -, rfl⟩
  · exact hloads ▸ hs
  · rw [press_eq]
    intro load hload
    rcases List.mem_append.mp hload with hload | hload
    · exact hs load hload
    · exact List.mem_singleton.mp hload ▸ asked_sent s
  · exact hloads ▸ hs
  · intro other hother
    rw [proceed_loads] at hother
    rcases List.mem_or_eq_of_mem_set hother with hother | rfl
    · exact hs other hother
    · exact hs load (List.mem_of_getElem? hload)

/-- `load` is the last load, the others have ended, and if it has ended as
well, the state is what it came to, or an error. -/
structure Last (resp : Nat → ExploreAnswer) (s : ExploreScreen) (init : List ExploreLoad)
    (load : ExploreLoad) : Prop where
  loads : s.loads = init ++ [load]
  others : ∀ other ∈ init, other.rest.Ended
  asked : Asked load
  result : load.rest.result (resp init.length) =
    (ExploreBloc.explore load.prompt).result (resp init.length)
  state : load.rest.Ended → s.state = ExploreBloc.noResponse ∨ ∃ searchQuery,
    s.state = outcome load.event searchQuery (load.rest.result (resp init.length))

/-- The state answers the last load, if there is one. -/
def Answering (resp : Nat → ExploreAnswer) (s : ExploreScreen) : Prop :=
  s.loads = [] ∧ (s.state = .initial ∨ s.state = ExploreBloc.noResponse) ∨
    ∃ init load, Last resp s init load

theorem Answering.of_eq (h : Answering resp s) (hstate : s'.state = s.state)
    (hloads : s'.loads = s.loads) : Answering resp s' := by
  rcases h with ⟨hnil, hs⟩ | ⟨init, load, hlast⟩
  · exact .inl ⟨hloads.trans hnil, hstate ▸ hs⟩
  · exact .inr ⟨init, load, hloads.trans hlast.loads, hlast.others, hlast.asked, hlast.result,
      hstate ▸ hlast.state⟩

theorem ended_of_inFlight (h : s.inFlight = 0) : ∀ load ∈ s.loads, load.rest.Ended := by
  simpa [inFlight, List.countP_eq_zero] using h

theorem Answering.press (hidle : s.inFlight = 0) : Answering resp s.press := by
  exact .inr ⟨s.loads, s.sent, by rw [press_eq], ended_of_inFlight hidle, asked_sent s, rfl,
    False.elim⟩

theorem Answering.added (h : Answering resp s) (hstate : s'.state = ExploreBloc.noResponse)
    (hloads : s'.loads = s.loads) : Answering resp s' := by
  rcases h with ⟨hnil, -⟩ | ⟨init, load, hlast⟩
  · exact .inl ⟨hloads.trans hnil, .inr hstate⟩
  · exact .inr ⟨init, load, hloads.trans hlast.loads, hlast.others, hlast.asked, hlast.result,
      fun _ => .inl hstate⟩

/-- The load that is answered is the last one. -/
theorem Answering.proceed (h : Answering resp s) {i : Nat} {load : ExploreLoad}
    {rest : ExploreProg (Option (GooglePlace × GptPlace))} (hload : s.loads[i]? = some load)
    (hrest : load.rest.answer? (resp i) = some rest) :
    Answering resp (s.proceed i load rest) := by
  rcases h with ⟨hnil, -⟩ | ⟨init, last, hlast⟩
  · simp [hnil] at hload
  have hnot := not_ended_of_answer hrest
  have hi : i = init.length := by
    obtain ⟨hlt, hget⟩ := List.getElem?_eq_some_iff.mp hload
    have hle : i < init.length + 1 := by simpa [hlast.loads] using hlt
    by_contra hne
    have hmem : load ∈ init := by
      rw [hlast.loads, List.getElem?_append_left (by omega)] at hload
      exact List.mem_of_getElem? hload
    exact hnot (hlast.others load hmem)
  subst hi
  obtain rfl : last = load := by simpa [hlast.loads] using hload
  refine .inr ⟨init, { last with rest := rest }, ?_, hlast.others, hlast.asked, ?_, ?_⟩
  · simp [hlast.loads]
  · exact (Prog.result_answer hrest).trans hlast.result
  · intro hend
    refine .inr ⟨s.searchQuery, ?_⟩
    rw [proceed_state _ _ _ (resp init.length), if_pos hend]

theorem Answering.step (h : Answering resp s) (hone : s.OneLoad) (hkeeps : s.keepsOne m = true)
    (hstep : s.step resp m = some s') : Answering resp s' := by
  rcases step_cases hstep with ⟨hstate, hloads, -, -⟩ | ⟨rfl, -, rfl⟩ |
    ⟨i, rfl, hstate, hloads⟩ | ⟨i, load, rest, rfl, hload, hrest, rfl⟩
  · exact h.of_eq hstate hloads
  · refine Answering.press ?_
    rw [OneLoad] at hone
    rw [hone, if_neg (of_decide_eq_true hkeeps)]
  · exact h.added hstate hloads
  · exact h.proceed hload hrest

theorem outcome_eq_loaded {event : LoadExplore} {searchQuery : String}
    {found : Except Json.Thrown (Option (GooglePlace × GptPlace))} {googlePlace : GooglePlace}
    {gptPlace : GptPlace} {placeType city state query : String}
    (h : outcome event searchQuery found =
      .loaded googlePlace gptPlace placeType city state query) :
    found = .ok (some (googlePlace, gptPlace)) ∧ event.placeType = placeType ∧
      event.city = some city ∧ event.state = some state := by
  unfold outcome at h
  split at h
  · split at h
    · next hcity hstate =>
      cases h
      exact ⟨rfl, rfl, hcity, hstate⟩
    · cases h
  · cases h
  · cases h

/-- After every run that keeps the promise, a place that the bloc shows is an
answer to the last request: it was found for the prompt that the button
built from the texts of the page and the lists of the bloc, and the details
beside it are those of this very place. -/
theorem explore_answers_last (resp : Nat → ExploreAnswer) {ms : List ExploreMove}
    (h : replay (step resp) keepsOne {} ms = some s) {googlePlace : GooglePlace}
    {gptPlace : GptPlace} {placeType city state query : String}
    (hstate : s.state = .loaded googlePlace gptPlace placeType city state query) :
    ∃ init load, s.loads = init ++ [load] ∧
      load.event = { placeType := placeType, city := some city, state := some state } ∧
      load.prompt = ExploreBloc.createExploreChatGPTQuery load.lists placeType city state ∧
      Finds (resp init.length) load.prompt googlePlace gptPlace := by
  have hinv : s.OneLoad ∧ Answering resp s := by
    refine replay_invariant (J := fun s => s.OneLoad ∧ Answering resp s) h
      ⟨rfl, .inl ⟨rfl, .inl rfl⟩⟩ ?_
    rintro s m s' ⟨hone, hans⟩ hkeeps hstep
    exact ⟨(oneLoad_step hone hstep).mpr hkeeps, hans.step hone hkeeps hstep⟩
  obtain ⟨hone, ⟨-, hs | hs⟩ | ⟨init, load, hlast⟩⟩ := hinv
  · rw [hstate] at hs
    cases hs
  · rw [hstate] at hs
    cases hs
  have hend : load.rest.Ended := by
    by_contra hopen
    have hpos : 0 < s.inFlight :=
      List.countP_pos_iff.mpr ⟨load, by simp [hlast.loads], by simp [hopen]⟩
    rw [hone, hstate] at hpos
    simp at hpos
  rcases hlast.state hend with hs | ⟨searchQuery, hs⟩
  · rw [hstate] at hs
    cases hs
  obtain ⟨hfound, rfl, hcity, hstate'⟩ := outcome_eq_loaded (hs.symm.trans hstate)
  obtain ⟨placeType', city', state', hevent, hprompt⟩ := hlast.asked
  rw [hevent] at hcity hstate' ⊢
  cases hcity
  cases hstate'
  rw [hlast.result] at hfound
  exact ⟨init, load, hlast.loads, hevent, hprompt, explore_result_iff.mp hfound⟩

/-! ## Tea -/

def teaPlace : GptPlace :=
  { name := "Tea House", type := "tea", description := "", city := "Kyoto", state := "Kyoto" }

/-- Every load is answered with the tea house. -/
def teaHouse (_ : Nat) : ExploreAnswer
  | .chatComplete _ _ => .ok (some teaPlace)
  | .places (.getAutoComplete _) => .ok [{ placeId := some "p1" }]
  | .places (.getPlace placeId) => .ok { placeId := some placeId }

/-- Tea is searched for and found. -/
def teaRun : List ExploreMove :=
  [.openPage, .typeSearch "tea", .explore, .build, .answer 0, .answer 0, .answer 0]

/-- A place cannot be added to a list while tea is searched for. -/
def teaFails : List ExploreMove :=
  [.openPage, .typeSearch "tea", .addPlaceToNewList {} "Food", .explore, .added 0 false]

/-- The state is an error then, and the load is under way. -/
theorem explore_loading_fails :
    ¬ ∀ k t, replay (step teaHouse) free {} (teaFails.take k) = some t → t.OneLoad := by
  rw [explore_loading_iff teaHouse (by decide)]
  decide

theorem explore_answers_tea : ∃ s, replay (step teaHouse) keepsOne {} teaRun = some s ∧
    ∃ init load, s.loads = init ++ [load] ∧
      Finds (teaHouse init.length) load.prompt { placeId := some "p1" } teaPlace := by
  have hrun : (replay (step teaHouse) keepsOne {} teaRun).map state =
      some (.loaded { placeId := some "p1" } teaPlace "tea" "" "" "tea") := by decide
  obtain ⟨s, hs, hstate⟩ := Option.map_eq_some_iff.mp hrun
  obtain ⟨init, load, hloads, -, -, hfinds⟩ := explore_answers_last teaHouse hs hstate
  exact ⟨s, hs, init, load, hloads, hfinds⟩

end ExploreScreen

end GottaGo
