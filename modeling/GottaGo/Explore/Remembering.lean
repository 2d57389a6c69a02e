/-
GottaGo.Explore.Remembering — a place that the user has moved on from is not
asked for again.

When the Explore button is pressed beside a place, the place is either in
one of the lists of its thumbs, or it has no thumb and the button puts it
into the history. The prompt is built from the three lists, so it excludes
the place or asks for similar ones, and so should every later prompt. A
place can get lost all the same: if the service has come up with it once
more and its thumb has been taken back, it is in no list until the button is
pressed beside it again. It must be what the page shows then, and the state
must not change by other means.

`Faithful` says of the lists and the thumbs that each thumb tells whether
the place is in its list, which has it once. `keepsMemory` is the promise of
a run, and `explore_remembers` what it gives.
-/
import GottaGo.Explore.Loads
import GottaGo.Explore.Preferences

namespace GottaGo

open GottaGo.Async GottaGo.Async.Events

/-- The prompt excludes the place, or asks for similar ones. -/
def ExploreLists.Mentions (s : ExploreLists) (name : String) : Prop :=
  name ∈ s.excluded ∨ name ∈ s.positiveQueries

/-! ## The lists in the prompt -/

namespace ExploreBloc

theorem contains_append_left {pat s : String} (h : Dart.contains s pat = true) (t : String) :
    Dart.contains (s ++ t) pat = true := by
  rw [Dart.contains_eq_true] at h ⊢
  rw [String.toList_append]
  exact h.trans (List.infix_append' [] _ _)

theorem contains_append_right {pat t : String} (s : String) (h : Dart.contains t pat = true) :
    Dart.contains (s ++ t) pat = true := by
  rw [Dart.contains_eq_true] at h ⊢
  rw [String.toList_append]
  exact h.trans (List.suffix_append _ _).isInfix

theorem contains_self (s : String) : Dart.contains s s = true :=
  Dart.contains_eq_true.mpr List.infix_rfl

theorem contains_joined {names : List String} {name : String} (h : name ∈ names) :
    Dart.contains (joined names) name = true := by
  induction names with
  | nil => cases h
  | cons first rest ih =>
    cases rest with
    | nil =>
      obtain rfl := List.mem_singleton.mp h
      exact contains_self _
    | cons next rest =>
      rcases List.mem_cons.mp h with rfl | h
      · exact contains_append_left (contains_append_left (contains_self _) _) _
      · exact contains_append_right _ (ih h)

/-- The prompt names every place that it is built from. -/
theorem contains_prompt {s : ExploreLists} {name : String} (h : s.Mentions name)
    (placeType city state : String) :
    Dart.contains (createExploreChatGPTQuery s placeType city state) name = true := by
  unfold createExploreChatGPTQuery
  extract_lets basePrompt withHistory withNegative
  have hhistory : name ∈ s.queryHistory → Dart.contains withHistory name = true := by
    intro hmem
    have hne : s.queryHistory ≠ [] := List.ne_nil_of_mem hmem
    simp only [withHistory, if_neg hne]
    exact contains_append_right _ (contains_joined hmem)
  have hnegative : name ∈ s.excluded → Dart.contains withNegative name = true := by
    intro hmem
    simp only [withNegative]
    rcases List.mem_append.mp hmem with hmem | hmem
    · split
      · exact hhistory hmem
      · exact contains_append_left (contains_append_left (contains_append_left
          (hhistory hmem) _) _) _
    · rw [if_neg (List.ne_nil_of_mem hmem)]
      exact contains_append_left (contains_append_right _ (contains_joined hmem)) _
  rcases h with hmem | hmem
  · split
    · exact hnegative hmem
    · exact contains_append_left (contains_append_left (contains_append_left
        (hnegative hmem) _) _) _
  · rw [if_neg (List.ne_nil_of_mem hmem)]
    exact contains_append_left (contains_append_right _ (contains_joined hmem)) _

end ExploreBloc

/-! ## The thumbs -/

section Toggle

variable {flag : Bool} {name : String} {xs : List String}

/-- What a thumb makes of its list. -/
theorem mem_toggle_iff (hnodup : xs.Nodup) {x : String} :
    x ∈ (if flag = false then xs ++ [name] else xs.erase name) ↔
      x ≠ name ∧ x ∈ xs ∨ x = name ∧ (flag = false) := by
  cases flag with
  | false =>
    by_cases hx : x = name <;> simp [hx]
  | true =>
    simp [hnodup.mem_erase_iff]

theorem nodup_toggle (hnodup : xs.Nodup) (hflag : flag = decide (name ∈ xs)) :
    (if flag = false then xs ++ [name] else xs.erase name).Nodup := by
  split
  · next hfalse =>
    rw [hfalse] at hflag
    exact (ExploreLists.nodup_concat_iff hnodup).mpr (of_decide_eq_false hflag.symm)
  · exact hnodup.erase name

/-- The thumb tells whether the place is in the list afterwards. -/
theorem flag_toggle (hnodup : xs.Nodup) :
    (!flag) = decide (name ∈ (if flag = false then xs ++ [name] else xs.erase name)) := by
  cases flag with
  | false => simp
  | true => simp [hnodup.mem_erase_iff]

end Toggle

namespace Exploring

variable {e e' : Exploring}

/-- Each thumb tells whether the place is in its list, which has it once. -/
structure Faithful (e : Exploring) : Prop where
  negative : e.lists.negativeQueries.Nodup
  positive : e.lists.positiveQueries.Nodup
  disliked : ∀ page ∈ e.page, page.isDisliked = decide (page.name ∈ e.lists.negativeQueries)
  liked : ∀ page ∈ e.page, page.isLiked = decide (page.name ∈ e.lists.positiveQueries)

theorem Faithful.built (h : e.Faithful) (state : ExploreState)
    (he : e.step (ExploreScreen.built state) = some e') : e'.Faithful ∧ e'.lists = e.lists := by
  cases state with
  | loaded googlePlace gptPlace placeType city state query =>
    cases he
    refine ⟨⟨h.negative, h.positive, ?_, ?_⟩, rfl⟩
    · rintro page ⟨⟩
      rfl
    · rintro page ⟨⟩
      rfl
  | _ =>
    cases he
    exact ⟨⟨h.negative, h.positive, nofun, nofun⟩, rfl⟩

theorem Faithful.thumbDown (h : e.Faithful) {page : ExplorePage} (hpage : page ∈ e.page) :
    (e.thumbDown page).Faithful where
  negative := nodup_toggle h.negative (h.disliked page hpage)
  positive := h.positive
  disliked := by
    rintro _ ⟨⟩
    exact flag_toggle h.negative
  liked := by
    rintro _ ⟨⟩
    exact h.liked page hpage

theorem Faithful.thumbUp (h : e.Faithful) {page : ExplorePage} (hpage : page ∈ e.page) :
    (e.thumbUp page).Faithful where
  negative := h.negative
  positive := nodup_toggle h.positive (h.liked page hpage)
  disliked := by
    rintro _ ⟨⟩
    exact h.disliked page hpage
  liked := by
    rintro _ ⟨⟩
    exact flag_toggle h.positive

theorem exploreButton_page (e : Exploring) (page : ExplorePage) :
    (e.exploreButton page).page = e.page := by
  unfold exploreButton
  split <;> rfl

theorem Faithful.exploreButton (h : e.Faithful) (page : ExplorePage) :
    (e.exploreButton page).Faithful := by
  unfold Exploring.exploreButton
  split
  · exact ⟨h.negative, h.positive, h.disliked, h.liked⟩
  · exact h

/-- The button forgets nothing, and the place beside it is in a list
afterwards. -/
theorem mentions_exploreButton (h : e.Faithful) {page : ExplorePage} (hpage : page ∈ e.page)
    {name : String} (hname : e.lists.Mentions name ∨ name = page.name) :
    (e.exploreButton page).lists.Mentions name := by
  have hdis := h.disliked page hpage
  have hlik := h.liked page hpage
  unfold exploreButton
  split
  · next hthumbs =>
    rcases hname with (hex | hpos) | rfl
    · refine .inl ?_
      rcases List.mem_append.mp hex with hhis | hneg
      · simp [ExploreLists.excluded, hhis]
      · simp [ExploreLists.excluded, hneg]
    · exact .inr hpos
    · exact .inl (by simp [ExploreLists.excluded])
  · next hthumbs =>
    rcases hname with hname | rfl
    · exact hname
    · by_cases hneg : page.name ∈ e.lists.negativeQueries
      · exact .inl (List.mem_append_right _ hneg)
      · by_cases hpos : page.name ∈ e.lists.positiveQueries
        · exact .inr hpos
        · exact absurd ⟨by simp [hdis, hneg], by simp [hlik, hpos]⟩ hthumbs

/-- A thumb forgets at most the place beside it, and only when it is taken
back. -/
theorem mentions_thumbDown (h : e.Faithful) {page : ExplorePage} {name : String}
    (hname : e.lists.Mentions name) (hkept : name ≠ page.name ∨ page.isDisliked = false) :
    (e.thumbDown page).lists.Mentions name := by
  rcases hname with hex | hpos
  · refine .inl ?_
    rcases List.mem_append.mp hex with hhis | hneg
    · exact List.mem_append_left _ hhis
    · refine List.mem_append_right _ ((mem_toggle_iff h.negative).mpr ?_)
      by_cases hne : name = page.name
      · exact .inr ⟨hne, hkept.resolve_left (not_not_intro hne)⟩
      · exact .inl ⟨hne, hneg⟩
  · exact .inr hpos

theorem mentions_thumbUp (h : e.Faithful) {page : ExplorePage} {name : String}
    (hname : e.lists.Mentions name) (hkept : name ≠ page.name ∨ page.isLiked = false) :
    (e.thumbUp page).lists.Mentions name := by
  rcases hname with hex | hpos
  · exact .inl hex
  · refine .inr ((mem_toggle_iff h.positive).mpr ?_)
    by_cases hne : name = page.name
    · exact .inr ⟨hne, hkept.resolve_left (not_not_intro hne)⟩
    · exact .inl ⟨hne, hpos⟩

end Exploring

/-! ## A run of the page -/

/-- The name of the place that is shown. -/
def ExploreState.name : ExploreState → Option String
  | .loaded _ gptPlace _ _ _ _ => some gptPlace.name
  | _ => none

namespace ExploreScreen

variable {resp : Nat → ExploreAnswer} {s s' : ExploreScreen} {m : ExploreMove}

/-- The promise of a run. Loads run one at a time; a thumb is taken back only
on a page that is up to date; and no call to add a place throws while a
place is shown. -/
def keepsMemory (s : ExploreScreen) (m : ExploreMove) : Bool :=
  s.keepsOne m &&
    match m with
    | .thumbDown => s.exploring.page.all fun page => !page.isDisliked || s.shown = some s.state
    | .thumbUp => s.exploring.page.all fun page => !page.isLiked || s.shown = some s.state
    | .added _ ok => ok || s.state.name = none
    | _ => true

/-- Every place that was left is in the lists, or it is the one that is shown
once more; and every prompt was built from lists with the places left by
then. -/
structure Remembers (s : ExploreScreen) : Prop where
  faithful : s.exploring.Faithful
  page : s.exploring.page.map ExplorePage.name = s.shown.bind ExploreState.name
  left : ∀ load ∈ s.loads, ∀ name ∈ load.leaving, s.exploring.lists.Mentions name ∨
    s.state.name = some name ∧ (s.shown = none ∨ s.shown = some s.state)
  own : ∀ load ∈ s.loads, ∀ name ∈ load.leaving, load.lists.Mentions name
  later : s.loads.Pairwise fun load load' => ∀ name ∈ load.leaving, load'.lists.Mentions name

/-- While no place is shown, the lists have every place that was left. -/
theorem Remembers.mentions (h : s.Remembers) (hnone : s.state.name = none) :
    ∀ load ∈ s.loads, ∀ name ∈ load.leaving, s.exploring.lists.Mentions name := by
  intro load hload name hname
  refine (h.left load hload name hname).resolve_right fun hshown => ?_
  rw [hnone] at hshown
  cases hshown.1

/-- The page is built. -/
theorem Remembers.build (h : s.Remembers) (hs : s.build = some s') : s'.Remembers := by
  obtain ⟨exploring, hstep, rfl⟩ := explored_eq_some hs
  obtain ⟨hfaithful, hlists⟩ := h.faithful.built s.state hstep
  refine ⟨hfaithful, ?_, fun load hload name hname => ?_, h.own, h.later⟩
  · show exploring.page.map ExplorePage.name = s.state.name
    cases hstate : s.state with
    | loaded googlePlace gptPlace placeType city state query =>
      rw [hstate] at hstep
      cases hstep
      rfl
    | _ =>
      rw [hstate] at hstep
      cases hstep
      rfl
  · show exploring.lists.Mentions name ∨ s.state.name = some name ∧ _
    rw [hlists]
    exact (h.left load hload name hname).imp_right fun hshown => ⟨hshown.1, .inr rfl⟩

theorem Remembers.leave (h : s.Remembers)
    (hs : { s with shown := none }.explored .hidden = some s') : s'.Remembers := by
  obtain ⟨exploring, hstep, rfl⟩ := explored_eq_some hs
  cases hstep
  refine ⟨⟨h.faithful.negative, h.faithful.positive, nofun, nofun⟩, rfl, ?_, h.own, h.later⟩
  intro load hload name hname
  exact (h.left load hload name hname).imp_right fun hshown => ⟨hshown.1, .inl rfl⟩

/-- The button leaves no place that is in no list. -/
theorem Remembers.mentions_remembered (h : s.Remembers) (hbuttons : s.HasButtons) {name : String}
    (hname : (∃ load ∈ s.loads, name ∈ load.leaving) ∨
      name ∈ s.exploring.page.map ExplorePage.name) :
    s.remembered.lists.Mentions name := by
  obtain ⟨⟨state, hshown, -⟩, -⟩ := hbuttons
  have hcurrent : s.exploring.lists.Mentions name ∨
      name ∈ s.exploring.page.map ExplorePage.name := by
    rcases hname with ⟨load, hload, hname⟩ | hname
    · refine (h.left load hload name hname).imp_right fun hstate => ?_
      have hup : s.shown = some s.state := by
        refine hstate.2.resolve_left fun hnone => ?_
        rw [hnone] at hshown
        cases hshown
      rw [h.page, hup]
      exact hstate.1
    · exact .inr hname
  unfold remembered
  cases hpage : s.exploring.page with
  | none =>
    rw [hpage] at hcurrent
    simp only [Exploring.step, hpage, Option.map_none, Option.getD_none]
    exact hcurrent.resolve_right nofun
  | some page =>
    rw [hpage] at hcurrent
    simp only [Exploring.step, hpage, Option.map_some, Option.getD_some]
    refine Exploring.mentions_exploreButton h.faithful hpage (hcurrent.imp_right fun hmem => ?_)
    exact (Option.some.inj hmem).symm

theorem remembered_page (s : ExploreScreen) : s.remembered.page = s.exploring.page := by
  unfold remembered
  cases hpage : s.exploring.page with
  | none => simp [Exploring.step, hpage]
  | some page => simp [Exploring.step, hpage, Exploring.exploreButton_page]

theorem Remembers.press (h : s.Remembers) (hbuttons : s.HasButtons) : s.press.Remembers := by
  have hfaithful : s.remembered.Faithful := by
    unfold remembered
    cases hpage : s.exploring.page with
    | none => simpa [Exploring.step, hpage] using h.faithful
    | some page => simpa [Exploring.step, hpage] using h.faithful.exploreButton page
  have hown : ∀ name ∈ s.sent.leaving, s.remembered.lists.Mentions name := by
    intro name hname
    refine h.mentions_remembered hbuttons (.inr ?_)
    rwa [← remembered_page]
  rw [press_eq]
  refine ⟨hfaithful, (congrArg _ (remembered_page s)).trans h.page, ?_, ?_, ?_⟩
  · intro load hload name hname
    refine .inl ?_
    rcases List.mem_append.mp hload with hload | hload
    · exact h.mentions_remembered hbuttons (.inl ⟨load, hload, hname⟩)
    · obtain rfl := List.mem_singleton.mp hload
      exact hown name hname
  · intro load hload name hname
    rcases List.mem_append.mp hload with hload | hload
    · exact h.own load hload name hname
    · obtain rfl := List.mem_singleton.mp hload
      exact hown name hname
  · refine List.pairwise_append.mpr ⟨h.later, List.pairwise_singleton _ _, ?_⟩
    intro load hload load' hload' name hname
    obtain rfl := List.mem_singleton.mp hload'
    exact h.mentions_remembered hbuttons (.inl ⟨load, hload, hname⟩)

/-- A thumb that forgets the place beside it is one of the place that is
shown. -/
theorem Remembers.thumb (h : s.Remembers) {page : ExplorePage} (hpage : page ∈ s.exploring.page)
    {exploring : Exploring} (hfaithful : exploring.Faithful)
    (hsame : exploring.page.map ExplorePage.name = some page.name) {flag : Bool}
    (hkept : ∀ name, s.exploring.lists.Mentions name → name ≠ page.name ∨ flag = false →
      exploring.lists.Mentions name)
    (hkeeps : (!flag || decide (s.shown = some s.state)) = true) :
    Remembers { s with exploring := exploring } := by
  have hname : s.exploring.page.map ExplorePage.name = some page.name := by
    rw [Option.mem_def.mp hpage]
    rfl
  refine ⟨hfaithful, hsame.trans (hname.symm.trans h.page), ?_, h.own, h.later⟩
  intro load hload name hmem
  rcases h.left load hload name hmem with hmentions | hstate
  · by_cases hlost : name ≠ page.name ∨ flag = false
    · exact .inl (hkept name hmentions hlost)
    · obtain ⟨rfl, hflag⟩ : name = page.name ∧ flag = true := by simpa using hlost
      have hup : s.shown = some s.state := by simpa [hflag] using hkeeps
      refine .inr ⟨?_, .inr hup⟩
      rw [h.page, hup] at hname
      exact hname
  · exact .inr hstate

theorem Remembers.proceed (h : s.Remembers) {i : Nat} {load : ExploreLoad}
    (hload : s.loads[i]? = some load) (hnone : s.state.name = none)
    (rest : ExploreProg (Option (GooglePlace × GptPlace))) :
    (s.proceed i load rest).Remembers := by
  have hmem : load ∈ s.loads := List.mem_of_getElem? hload
  have hleft := h.mentions hnone
  have hexploring : (s.proceed i load rest).exploring = s.exploring := by cases rest <;> rfl
  have hshown : (s.proceed i load rest).shown = s.shown := by cases rest <;> rfl
  refine ⟨hexploring ▸ h.faithful, by rw [hexploring, hshown, h.page], ?_, ?_, ?_⟩
  · intro other hother name hname
    rw [hexploring]
    rw [proceed_loads] at hother
    rcases List.mem_or_eq_of_mem_set hother with hother | rfl
    · exact .inl (hleft other hother name hname)
    · exact .inl (hleft load hmem name hname)
  · intro other hother name hname
    rw [proceed_loads] at hother
    rcases List.mem_or_eq_of_mem_set hother with hother | rfl
    · exact h.own other hother name hname
    · exact h.own load hmem name hname
  · have hmap : (s.proceed i load rest).loads.map (fun load => (load.leaving, load.lists)) =
        s.loads.map fun load => (load.leaving, load.lists) := by
      obtain ⟨hlt, hget⟩ := List.getElem?_eq_some_iff.mp hload
      rw [proceed_loads, List.map_set]
      refine List.ext_getElem (by simp) fun j hj hj' => ?_
      by_cases hij : i = j
      · subst hij
        simp [hget]
      · simp [hij]
    have hpair : ∀ loads : List ExploreLoad,
        (loads.map fun load => (load.leaving, load.lists)).Pairwise
            (fun x y => ∀ name ∈ x.1, y.2.Mentions name) ↔
          loads.Pairwise fun load load' => ∀ name ∈ load.leaving, load'.lists.Mentions name :=
      fun loads => List.pairwise_map
    rw [← hpair, hmap, hpair]
    exact h.later

theorem Remembers.step (h : s.Remembers) (hone : s.OneLoad) (hkeeps : s.keepsMemory m = true)
    (hstep : s.step resp m = some s') : s'.Remembers := by
  obtain ⟨-, hkeeps⟩ := Bool.and_eq_true_iff.mp hkeeps
  cases m with
  | openPage =>
    simp only [ExploreScreen.step] at hstep
    split at hstep
    · have hcleared : Remembers { s with search := "" } :=
        ⟨h.faithful, h.page, h.left, h.own, h.later⟩
      exact hcleared.build hstep
    · cases hstep
  | leavePage =>
    simp only [ExploreScreen.step] at hstep
    split at hstep
    · exact h.leave hstep
    · cases hstep
  | build =>
    simp only [ExploreScreen.step] at hstep
    split at hstep
    · exact h.build hstep
    · cases hstep
  | typeSearch text =>
    simp only [ExploreScreen.step] at hstep
    split at hstep
    · cases hstep
      exact ⟨h.faithful, h.page, h.left, h.own, h.later⟩
    · cases hstep
  | explore =>
    simp only [ExploreScreen.step] at hstep
    split at hstep
    · next hbuttons =>
      cases hstep
      exact h.press hbuttons
    · cases hstep
  | thumbDown =>
    simp only [ExploreScreen.step] at hstep
    split at hstep
    · obtain ⟨exploring, hthumb, rfl⟩ := explored_eq_some hstep
      obtain ⟨page, hpage, rfl⟩ := Option.map_eq_some_iff.mp hthumb
      refine h.thumb hpage (h.faithful.thumbDown hpage) rfl
        (fun name => Exploring.mentions_thumbDown h.faithful) ?_
      simpa [hpage] using hkeeps
    · cases hstep
  | thumbUp =>
    simp only [ExploreScreen.step] at hstep
    split at hstep
    · obtain ⟨exploring, hthumb, rfl⟩ := explored_eq_some hstep
      obtain ⟨page, hpage, rfl⟩ := Option.map_eq_some_iff.mp hthumb
      refine h.thumb hpage (h.faithful.thumbUp hpage) rfl
        (fun name => Exploring.mentions_thumbUp h.faithful) ?_
      simpa [hpage] using hkeeps
    · cases hstep
  | locate move =>
    simp only [ExploreScreen.step, locate] at hstep
    split at hstep
    · cases hstep
    · obtain ⟨locating, -, rfl⟩ := Option.map_eq_some_iff.mp hstep
      exact ⟨h.faithful, h.page, h.left, h.own, h.later⟩
  | addPlaceToNewList place placeListName =>
    cases hstep
    exact ⟨h.faithful, h.page, h.left, h.own, h.later⟩
  | added i ok =>
    simp only [ExploreScreen.step] at hstep
    split at hstep
    · cases hstep
      cases ok with
      | true => exact ⟨h.faithful, h.page, h.left, h.own, h.later⟩
      | false =>
        have hnone : s.state.name = none := by simpa using hkeeps
        exact ⟨h.faithful, h.page,
          fun load hload name hname => .inl (h.mentions hnone load hload name hname), h.own,
          h.later⟩
    · cases hstep
  | answer i =>
    simp only [ExploreScreen.step, answer] at hstep
    split at hstep
    · next load hload =>
      obtain ⟨rest, hrest, rfl⟩ := Option.map_eq_some_iff.mp hstep
      -- A load is answered, so the state is loading.
      have hpos : 0 < s.inFlight := List.countP_pos_iff.mpr
        ⟨load, List.mem_of_getElem? hload, by simp [not_ended_of_answer hrest]⟩
      have hloading : s.state = .loading := by
        by_contra hne
        rw [OneLoad, if_neg hne] at hone
        omega
      exact h.proceed hload (by rw [hloading]; rfl) rest
    · cases hstep

/-- After every run that keeps the promise: every prompt names every place
beside which the Explore button has been pressed, then or before, as one to
exclude or to find similar ones to. -/
theorem explore_remembers (resp : Nat → ExploreAnswer) {ms : List ExploreMove}
    (h : replay (step resp) keepsMemory {} ms = some s) {i j : Nat} (hij : i ≤ j)
    {load load' : ExploreLoad} (hi : s.loads[i]? = some load) (hj : s.loads[j]? = some load')
    {name : String} (hname : name ∈ load.leaving) :
    load'.lists.Mentions name ∧ Dart.contains load'.prompt name = true := by
  have hinv : s.OneLoad ∧ s.Remembers ∧ ∀ load ∈ s.loads, Asked load := by
    refine replay_invariant (J := fun s => s.OneLoad ∧ s.Remembers ∧ ∀ load ∈ s.loads, Asked load)
      h ⟨rfl, ⟨⟨.nil, .nil, nofun, nofun⟩, rfl, nofun, nofun, .nil⟩, nofun⟩ ?_
    rintro s m s' ⟨hone, hmem, hasked⟩ hkeeps hstep
    have hkeepsOne : s.keepsOne m = true := (Bool.and_eq_true_iff.mp hkeeps).1
    exact ⟨(oneLoad_step hone hstep).mpr hkeepsOne, hmem.step hone hkeeps hstep,
      asked_step hasked hstep⟩
  obtain ⟨-, hmem, hasked⟩ := hinv
  have hmentions : load'.lists.Mentions name := by
    rcases Nat.lt_or_eq_of_le hij with hlt | rfl
    · obtain ⟨hi', rfl⟩ := List.getElem?_eq_some_iff.mp hi
      obtain ⟨hj', rfl⟩ := List.getElem?_eq_some_iff.mp hj
      exact List.pairwise_iff_getElem.mp hmem.later i j hi' hj' hlt name hname
    · obtain rfl := Option.some.inj (hi.symm.trans hj)
      exact hmem.own load (List.mem_of_getElem? hi) name hname
  obtain ⟨placeType, city, state, -, hprompt⟩ := hasked load' (List.mem_of_getElem? hj)
  exact ⟨hmentions, hprompt ▸ ExploreBloc.contains_prompt hmentions placeType city state⟩

/-- The tea house is found, left and found once more, liked this time, and left
again. -/
def teaTwice : List ExploreMove :=
  teaRun ++ [.build, .explore, .build, .answer 1, .answer 1, .answer 1, .build, .thumbUp, .explore]

theorem explore_remembers_tea : ∃ s, replay (step teaHouse) keepsMemory {} teaTwice = some s ∧
    ∃ load ∈ s.loads[2]?, Dart.contains load.prompt "Tea House" = true := by
  have hrun : (replay (step teaHouse) keepsMemory {} teaTwice).map
      (fun s => s.loads.map ExploreLoad.leaving) = some [none, some "Tea House", some "Tea House"] := by
    decide
  obtain ⟨s, hs, hleaving⟩ := Option.map_eq_some_iff.mp hrun
  have hload : ∀ i : Nat, s.loads[i]?.map ExploreLoad.leaving =
      [none, some "Tea House", some "Tea House"][i]? := by
    intro i
    rw [← hleaving, List.getElem?_map]
  obtain ⟨load, hi, hname⟩ := Option.map_eq_some_iff.mp (hload 1)
  obtain ⟨load', hj, -⟩ := Option.map_eq_some_iff.mp (hload 2)
  exact ⟨s, hs, load', hj, (explore_remembers teaHouse hs (by decide) hi hj hname).2⟩

end ExploreScreen

end GottaGo
