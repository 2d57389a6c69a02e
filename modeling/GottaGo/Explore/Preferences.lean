/-
GottaGo.Explore.Preferences — likes and dislikes of explored places.

`Apart` says of the three lists that likes and dislikes have no repetition
and that no name is both to be prioritised and to be excluded by the prompt
they build; `Consistent` adds that no `LoadExplore` has thrown for a missing
query. Taking a name out of a list and adding a negative query keep this
(`Apart.addNegative`); what adds a name without looking for it in the other
lists keeps it only if the name is in none of them. `keeps` collects, for
each thing that can happen, what it takes, and `preferences_iff` says that a
run is consistent all along just when all that happens in it is of this kind.
-/
import GottaGo.Bloc.Explore
import Mathlib.Data.List.Nodup

namespace GottaGo

open GottaGo.Async ExploreBloc

namespace ExploreLists

/-- The names that the prompt excludes. -/
def excluded (s : ExploreLists) : List String := s.queryHistory ++ s.negativeQueries

/-- The lists contradict neither themselves nor each other. -/
structure Apart (s : ExploreLists) : Prop where
  positive : s.positiveQueries.Nodup
  negative : s.negativeQueries.Nodup
  disjoint : ∀ name ∈ s.positiveQueries, name ∉ s.negativeQueries
  prompt : ∀ name ∈ s.positiveQueries, name ∉ s.excluded

/-- `name` is in none of the lists. -/
def New (s : ExploreLists) (name : String) : Prop :=
  name ∉ s.positiveQueries ∧ name ∉ s.excluded

instance (s : ExploreLists) (name : String) : Decidable (s.New name) :=
  inferInstanceAs (Decidable (_ ∧ _))

variable {s : ExploreLists} {name : String}

theorem nodup_concat_iff {xs : List String} (h : xs.Nodup) :
    (xs ++ [name]).Nodup ↔ name ∉ xs := by
  rw [← List.concat_eq_append, List.nodup_concat]
  simp [h]

/-- A new like is one of a name that is in no list. -/
theorem Apart.addPositive_iff (h : s.Apart) :
    Apart { s with positiveQueries := s.positiveQueries ++ [name] } ↔ s.New name := by
  constructor
  · intro h'
    exact ⟨(nodup_concat_iff h.positive).mp h'.positive, h'.prompt name (by simp)⟩
  · intro hnew
    have hall : ∀ x ∈ s.positiveQueries ++ [name], x ∉ s.excluded := by
      intro x hx
      rcases List.mem_append.mp hx with hx | hx
      · exact h.prompt x hx
      · exact List.mem_singleton.mp hx ▸ hnew.2
    exact ⟨(nodup_concat_iff h.positive).mpr hnew.1, h.negative,
      fun x hx hneg => hall x hx (List.mem_append_right _ hneg), hall⟩

/-- A new dislike is one of a name that is neither liked nor disliked. -/
theorem Apart.addNegative_iff (h : s.Apart) :
    Apart { s with negativeQueries := s.negativeQueries ++ [name] } ↔
      name ∉ s.negativeQueries ∧ name ∉ s.positiveQueries := by
  constructor
  · intro h'
    exact ⟨(nodup_concat_iff h.negative).mp h'.negative,
      fun hpos => h'.disjoint name hpos (by simp)⟩
  · rintro ⟨hneg, hpos⟩
    have hne : ∀ x ∈ s.positiveQueries, x ≠ name := fun x hx he => hpos (he ▸ hx)
    refine ⟨h.positive, (nodup_concat_iff h.negative).mpr hneg, fun x hx hmem => ?_,
      fun x hx hmem => ?_⟩
    · rcases List.mem_append.mp hmem with hmem | hmem
      · exact h.disjoint x hx hmem
      · exact hne x hx (List.mem_singleton.mp hmem)
    · simp only [excluded, List.mem_append, List.mem_singleton] at hmem
      rcases hmem with hmem | hmem | hmem
      · exact h.prompt x hx (List.mem_append_left _ hmem)
      · exact h.disjoint x hx hmem
      · exact hne x hx hmem

/-- A name to be excluded from now on is one that is not liked. -/
theorem Apart.addHistory_iff (h : s.Apart) :
    Apart { s with queryHistory := s.queryHistory ++ [name] } ↔ name ∉ s.positiveQueries := by
  constructor
  · intro h' hpos
    exact h'.prompt name hpos (by simp [excluded])
  · intro hpos
    refine ⟨h.positive, h.negative, h.disjoint, fun x hx hmem => ?_⟩
    simp only [excluded, List.mem_append, List.mem_singleton] at hmem
    rcases hmem with (hmem | rfl) | hmem
    · exact h.prompt x hx (List.mem_append_left _ hmem)
    · exact hpos hx
    · exact h.disjoint x hx hmem

theorem Apart.erasePositive (h : s.Apart) :
    Apart { s with positiveQueries := s.positiveQueries.erase name } where
  positive := h.positive.erase _
  negative := h.negative
  disjoint := fun x hx => h.disjoint x (List.mem_of_mem_erase hx)
  prompt := fun x hx => h.prompt x (List.mem_of_mem_erase hx)

theorem Apart.eraseNegative (h : s.Apart) :
    Apart { s with negativeQueries := s.negativeQueries.erase name } where
  positive := h.positive
  negative := h.negative.erase _
  disjoint := fun x hx hmem => h.disjoint x hx (List.mem_of_mem_erase hmem)
  prompt := by
    intro x hx hmem
    rcases List.mem_append.mp hmem with hmem | hmem
    · exact h.prompt x hx (List.mem_append_left _ hmem)
    · exact h.disjoint x hx (List.mem_of_mem_erase hmem)

/-- The handler looks before it adds a negative query. -/
theorem Apart.addNegative (h : s.Apart) (event : LoadExplore) :
    (ExploreBloc.addNegative event s).Apart := by
  unfold ExploreBloc.addNegative
  split
  · exact h
  · split
    · next hnew => exact h.addNegative_iff.mpr hnew
    · exact h

end ExploreLists

namespace Exploring

/-- Likes and dislikes are apart, and no `LoadExplore` has thrown for a
missing query. -/
structure Consistent (s : Exploring) : Prop where
  apart : s.lists.Apart
  query : .query ∉ s.thrown

/-- A `LoadExplore` with a positive query also has a query, and either the
query is in a list, or the positive query is in none. -/
def keepsPositive (event : LoadExplore) (s : ExploreLists) : Bool :=
  match event.positiveQuery with
  | none => true
  | some positiveQuery =>
    match event.query with
    | none => false
    | some query =>
      query ∈ s.positiveQueries || query ∈ s.negativeQueries || s.New positiveQuery

/-- What it takes to keep a consistent state so. -/
def keeps (s : Exploring) : ExploreHappening → Bool
  | .loadExplore event => keepsPositive event (addNegative event s.lists)
  | .thumbDown => s.page.all fun page => page.isDisliked ||
      page.name ∉ s.lists.negativeQueries && page.name ∉ s.lists.positiveQueries
  | .thumbUp => s.page.all fun page => page.isLiked || s.lists.New page.name
  | .exploreButton => s.page.all fun page => page.isDisliked || page.isLiked ||
      page.name ∉ s.lists.positiveQueries
  | _ => true

variable {s s' : Exploring}

/-- The positive query keeps the lists apart, and does not throw, just when
it is of the right kind. -/
theorem addPositive_iff {lists : ExploreLists} (h : lists.Apart) (event : LoadExplore) :
    (∃ lists', addPositive event lists = .ok lists' ∧ lists'.Apart) ↔
      keepsPositive event lists = true := by
  unfold addPositive keepsPositive
  cases event.positiveQuery with
  | none => simpa [pure, Except.pure] using h
  | some positiveQuery =>
    cases event.query with
    | none => simp
    | some query =>
      by_cases hpos : query ∈ lists.positiveQueries
      · simpa [hpos, pure, Except.pure] using h
      · by_cases hneg : query ∈ lists.negativeQueries
        · simpa [hneg, pure, Except.pure] using h
        · simp [hpos, hneg, pure, Except.pure, h.addPositive_iff]

/-- Nothing else throws there. -/
theorem addPositive_eq_error {lists : ExploreLists} {event : LoadExplore} {e : Missing}
    (h : addPositive event lists = .error e) : e = .query := by
  unfold addPositive at h
  split at h
  · cases h
  · split at h
    · cases h
      rfl
    · split at h <;> cases h

/-- What the handler has done by its first await. -/
theorem consistent_loadExplore_iff (h : s.Consistent) (event : LoadExplore) :
    (s.loadExplore event).Consistent ↔ keeps s (.loadExplore event) = true := by
  rw [keeps, ← addPositive_iff (h.apart.addNegative event)]
  cases hadd : addPositive event (addNegative event s.lists) with
  | error e =>
    obtain rfl := addPositive_eq_error hadd
    have hthrown : Missing.query ∈ (s.loadExplore event).thrown := by
      simp [loadExplore, onLoadExplore, hadd]
    simpa using fun hc : (s.loadExplore event).Consistent => hc.query hthrown
  | ok lists =>
    have hlists : (s.loadExplore event).lists = lists := by
      unfold loadExplore onLoadExplore
      cases event.city <;> cases event.state <;> simp [hadd]
    have hthrown : Missing.query ∉ (s.loadExplore event).thrown := by
      unfold loadExplore onLoadExplore
      cases event.city <;> cases event.state <;> simp [hadd, h.query]
    constructor
    · intro hc
      exact ⟨lists, rfl, hlists ▸ hc.apart⟩
    · rintro ⟨_, hok, hapart⟩
      cases hok
      exact ⟨hlists.symm ▸ hapart, hthrown⟩

/-- A thumb adds a name that is in no other list, or takes one out. -/
theorem consistent_thumbDown_iff (h : s.Consistent) (page : ExplorePage) :
    (s.thumbDown page).Consistent ↔ page.isDisliked = true ∨
      page.name ∉ s.lists.negativeQueries ∧ page.name ∉ s.lists.positiveQueries := by
  cases hflag : page.isDisliked with
  | true =>
    have hkept : (s.thumbDown page).Consistent := by
      refine ⟨?_, h.query⟩
      simpa [thumbDown, hflag] using h.apart.eraseNegative
    simp [hkept]
  | false =>
    rw [← h.apart.addNegative_iff]
    have hlists : (s.thumbDown page).lists =
        { s.lists with negativeQueries := s.lists.negativeQueries ++ [page.name] } := by
      simp [thumbDown, hflag]
    simp only [Bool.false_eq_true, false_or, ← hlists]
    exact ⟨fun hc => hc.apart, fun ha => ⟨ha, h.query⟩⟩

theorem consistent_thumbUp_iff (h : s.Consistent) (page : ExplorePage) :
    (s.thumbUp page).Consistent ↔ page.isLiked = true ∨ s.lists.New page.name := by
  cases hflag : page.isLiked with
  | true =>
    have hkept : (s.thumbUp page).Consistent := by
      refine ⟨?_, h.query⟩
      simpa [thumbUp, hflag] using h.apart.erasePositive
    simp [hkept]
  | false =>
    rw [← h.apart.addPositive_iff]
    have hlists : (s.thumbUp page).lists =
        { s.lists with positiveQueries := s.lists.positiveQueries ++ [page.name] } := by
      simp [thumbUp, hflag]
    simp only [Bool.false_eq_true, false_or, ← hlists]
    exact ⟨fun hc => hc.apart, fun ha => ⟨ha, h.query⟩⟩

/-- The Explore button excludes a place without a thumb. -/
theorem consistent_exploreButton_iff (h : s.Consistent) (page : ExplorePage) :
    (s.exploreButton page).Consistent ↔ page.isDisliked = true ∨ page.isLiked = true ∨
      page.name ∉ s.lists.positiveQueries := by
  by_cases hflags : page.isDisliked = false ∧ page.isLiked = false
  · rw [← h.apart.addHistory_iff]
    have hlists : (s.exploreButton page).lists =
        { s.lists with queryHistory := s.lists.queryHistory ++ [page.name] } := by
      simp [exploreButton, hflags]
    have hthrown : (s.exploreButton page).thrown = s.thrown := by
      simp [exploreButton, hflags]
    simp only [hflags, Bool.false_eq_true, false_or, ← hlists]
    exact ⟨fun hc => hc.apart, fun ha => ⟨ha, hthrown.symm ▸ h.query⟩⟩
  · have hsame : s.exploreButton page = s := by simp [exploreButton, hflags]
    rw [hsame]
    refine ⟨fun _ => ?_, fun _ => h⟩
    by_cases hd : page.isDisliked = true
    · exact .inl hd
    · exact .inr (.inl (by simpa [hd] using hflags))

/-- What happens keeps a consistent state so just when it is of the right
kind. -/
theorem consistent_step_iff (h : s.Consistent) {e : ExploreHappening}
    (hstep : s.step e = some s') : s'.Consistent ↔ keeps s e = true := by
  have hpage : ∀ f : ExplorePage → Exploring, s.page.map f = some s' →
      ∃ page, s.page = some page ∧ f page = s' := fun f hf => Option.map_eq_some_iff.mp hf
  cases e with
  | loadExplore event =>
    cases hstep
    exact consistent_loadExplore_iff h event
  | built name =>
    cases hstep
    exact ⟨fun _ => rfl, fun _ => ⟨h.apart, h.query⟩⟩
  | hidden =>
    cases hstep
    exact ⟨fun _ => rfl, fun _ => ⟨h.apart, h.query⟩⟩
  | thumbDown =>
    obtain ⟨page, hp, rfl⟩ := hpage _ hstep
    rw [consistent_thumbDown_iff h page]
    simp [keeps, hp]
  | thumbUp =>
    obtain ⟨page, hp, rfl⟩ := hpage _ hstep
    rw [consistent_thumbUp_iff h page]
    simp [keeps, hp]
  | exploreButton =>
    obtain ⟨page, hp, rfl⟩ := hpage _ hstep
    rw [consistent_exploreButton_iff h page]
    simp [keeps, hp, or_assoc]

/-- Likes and dislikes stay apart, and no `LoadExplore` fails for a missing
query, in every state of a run, just when all that happens in it is of the
right kind. -/
theorem preferences_iff (es : List ExploreHappening)
    (h : (Events.replay step Events.free {} es).isSome) :
    (∀ k t, Events.replay step Events.free {} (es.take k) = some t → t.Consistent) ↔
      (Events.replay step keeps {} es).isSome := by
  have hstart : Consistent {} := by
    refine ⟨⟨List.nodup_nil, List.nodup_nil, ?_, ?_⟩, ?_⟩ <;> simp
  refine Events.replay_promise_iff (J := fun _ => True) trivial hstart ?_ h
  intro t e t' _ ht hstep
  exact ⟨trivial, consistent_step_iff ht hstep⟩

/-- The Pantheon is explored and liked, and the next place is disliked. -/
def pantheonRun : List ExploreHappening :=
  [.built "Pantheon", .thumbUp, .built "Colosseum", .thumbDown]

theorem preferences_pantheon :
    (Events.replay step Events.free {} pantheonRun).isSome ∧
      ∀ k t, Events.replay step Events.free {} (pantheonRun.take k) = some t → t.Consistent :=
  ⟨by decide, (preferences_iff pantheonRun (by decide)).mpr (by decide)⟩

/-- A place is disliked and then liked: both thumbs stay, and the prompt asks
to exclude it and for places like it. -/
theorem like_after_dislike :
    ¬ ∀ (es : List ExploreHappening) (t : Exploring),
      Events.replay step Events.free {} es = some t → t.Consistent := by
  intro h
  have hrun : Events.replay step Events.free {} [.built "Pantheon", .thumbDown, .thumbUp] =
      some { lists := { negativeQueries := ["Pantheon"], positiveQueries := ["Pantheon"] },
             page := some { name := "Pantheon", isDisliked := true, isLiked := true } } := by
    decide
  exact (h _ _ hrun).apart.disjoint "Pantheon" (by simp) (by simp)

end Exploring

end GottaGo
