/-
GottaGo.Places.Wheel — whether the wheel has something to choose from.

`GoButton` looks at the list once, when it is built, and opens the wheel on
a single place. The items of the wheel are those of the moment when the bar
was built, and a fling draws from the list as it is then, which the bloc has
cleared or added to meanwhile. `wheel_chooses_iff`: every wheel that can be
flung has two places, and chooses the one it shows, in exactly the runs in
which

* the bar is built with the wheel open only while the list has two places,
  and
* no event clears the list or adds to it while such a wheel is shown.
-/
import GottaGo.Bloc.Wheel
import GottaGo.Places.Loads

namespace GottaGo

open GottaGo.Async.Events GottaGo.Firestore

namespace WheelPage

/-- A wheel that can be flung has at least two places to draw from, and
every fling sends the index of the item that shows the place chosen. -/
def Chooses (page : WheelPage) : Prop :=
  ∀ items, page.view.items? = some items →
    2 ≤ page.bloc.savedPlaces.length ∧
      ∀ random, ∃ randomInt place name, page.draw random = some (randomInt, place) ∧
        place.name = some name ∧ items[randomInt]? = some name

/-- The promise of a run in which every wheel chooses. -/
def keeps (page : WheelPage) : WheelEvent → Bool
  | .bloc event => page.view.items?.isNone || !page.bloc.changesPlaces event
  | .buildPage _ =>
    !(barOf page.bloc).any (·.opens page.wheel.state page.bloc) ||
      decide (2 ≤ page.bloc.savedPlaces.length)
  | .buildBar _ =>
    !page.bar.any (·.opens page.wheel.state page.bloc) ||
      decide (2 ≤ page.bloc.savedPlaces.length)
  | _ => true

/-- The items of the wheel are the names of the places. -/
def Named (items : List String) (places : List Place) : Prop :=
  places.map Place.name = items.map some

theorem mapM_name_eq_some {places : List Place} {items : List String} :
    places.mapM Place.name = some items ↔ Named items places := by
  induction places generalizing items with
  | nil => cases items <;> simp [Named]
  | cons place places ih =>
    rw [List.mapM_cons]
    cases items with
    | nil => simp [Named, Option.bind_eq_some_iff]
    | cons item items =>
      simp only [Option.bind_eq_bind, Option.bind_eq_some_iff, ih, Named, List.map_cons,
        List.cons.injEq, Option.pure_def, Option.some.injEq]
      constructor
      · rintro ⟨name, hname, names, hnames, rfl, rfl⟩
        exact ⟨hname, hnames⟩
      · rintro ⟨hname, hnames⟩
        exact ⟨item, hname, items, hnames, rfl, rfl⟩

theorem Named.getElem {items : List String} {places : List Place} (h : Named items places)
    {i : Nat} (hi : i < places.length) :
    ∃ name, places[i].name = some name ∧ items[i]? = some name := by
  have hget : (places.map Place.name)[i]? = (items.map some)[i]? := by rw [h]
  rw [List.getElem?_map, List.getElem?_map, List.getElem?_eq_getElem hi] at hget
  cases hitem : items[i]? with
  | none => simp [hitem] at hget
  | some name =>
    rw [hitem] at hget
    exact ⟨name, Option.some.inj hget, rfl⟩

/-- There are names to show when every place has one. -/
theorem exists_named_iff {places : List Place} :
    (∃ items, Named items places) ↔ (places.all fun place => place.name.isSome) = true := by
  rw [List.all_eq_true]
  constructor
  · rintro ⟨items, h⟩ place hplace
    have hmem : place.name ∈ places.map Place.name := List.mem_map_of_mem hplace
    rw [h] at hmem
    obtain ⟨name, -, hname⟩ := List.mem_map.mp hmem
    rw [← hname]
    rfl
  · intro h
    refine ⟨places.map fun place => place.name.getD "", ?_⟩
    rw [Named, List.map_map]
    refine List.map_congr_left fun place hplace => ?_
    obtain ⟨name, hname⟩ := Option.isSome_iff_exists.mp (h place hplace)
    simp [hname]

/-- A fling draws one of the places there are. -/
theorem draw_eq {page : WheelPage} (hpos : 0 < page.bloc.savedPlaces.length) (random : Nat) :
    let randomInt := random % page.bloc.savedPlaces.length
    page.draw random = page.bloc.savedPlaces[randomInt]?.map fun place =>
      (randomInt, place) := by
  have hne : page.bloc.savedPlaces.length ≠ 0 := Nat.pos_iff_ne_zero.mp hpos
  cases hget : page.bloc.savedPlaces[random % page.bloc.savedPlaces.length]? <;>
    simp [draw, nextInt, hne, hget]

/-- A wheel that shows the names of two places chooses the place it shows. -/
theorem chooses_of_named {page : WheelPage}
    (hnamed : ∀ items, page.view.items? = some items → Named items page.bloc.savedPlaces)
    (htwo : ∀ items, page.view.items? = some items → 2 ≤ page.bloc.savedPlaces.length) :
    page.Chooses := by
  intro items hitems
  have hlength := htwo items hitems
  refine ⟨hlength, fun random => ?_⟩
  have hpos : 0 < page.bloc.savedPlaces.length := by omega
  have hlt := Nat.mod_lt random hpos
  obtain ⟨name, hname, hitem⟩ := (hnamed items hitems).getElem hlt
  refine ⟨_, _, name, ?_, hname, hitem⟩
  rw [draw_eq hpos, List.getElem?_eq_getElem hlt]
  rfl

/-- A wheel whose list has grown does not show the place at its end. -/
theorem not_chooses_of_length {page : WheelPage} {items : List String}
    (hview : page.view.items? = some items)
    (hlength : items.length < page.bloc.savedPlaces.length) : ¬ page.Chooses := by
  intro h
  obtain ⟨randomInt, place, name, hdraw, -, hitem⟩ := (h items hview).2 items.length
  rw [draw_eq (by omega)] at hdraw
  obtain ⟨_, _, hpair⟩ := Option.map_eq_some_iff.mp hdraw
  have hint : randomInt = items.length :=
    (congrArg Prod.fst hpair).symm.trans (Nat.mod_eq_of_lt hlength)
  rw [hint, List.getElem?_eq_none (Nat.le_refl _)] at hitem
  cases hitem

/-! ## One event -/

/-- While the wheel has something to choose from, it shows the places. -/
def Shows (page : WheelPage) : Prop :=
  page.Chooses → ∀ items, page.view.items? = some items → Named items page.bloc.savedPlaces

/-- The bar is built to a wheel that can be flung where it `opens`, and then
shows the places. -/
theorem items?_build {bar : RandomPlaceBar} {purchases : PurchasesState}
    {wheel : RandomWheelState} {bloc : SavedPlacesBloc} {items : List String} :
    (bar.build purchases wheel bloc).items? = some items ↔
      bar.opens wheel bloc = true ∧ Named items bloc.savedPlaces := by
  rw [← mapM_name_eq_some]
  unfold RandomPlaceBar.build RandomPlaceBar.opens
  cases hw : wheel.isOpen with
  | false => split <;> simp [RandomPlaceBar.View.items?]
  | true =>
    have hne : wheel ≠ .loading := by
      rintro rfl
      cases hw
    rw [if_neg hne, if_pos rfl]
    cases hl : bar.placeListLoaded with
    | false => simp [RandomPlaceBar.View.items?]
    | true =>
      rw [if_pos rfl]
      cases hm : bloc.savedPlaces.mapM Place.name with
      | none => simp [RandomPlaceBar.View.items?]
      | some names =>
        have hall := exists_named_iff.mp ⟨names, mapM_name_eq_some.mp hm⟩
        simp [RandomPlaceBar.View.items?, hall]

/-- A page whose view was built now chooses where the list has two places, or
where there is nothing to fling. -/
theorem shows_and_chooses_of_built {page : WheelPage} {opens : Bool}
    (hview : ∀ items, page.view.items? = some items ↔
      opens = true ∧ Named items page.bloc.savedPlaces)
    (hopens : opens = true → ∃ items, Named items page.bloc.savedPlaces) :
    page.Shows ∧ (page.Chooses ↔ (!opens || decide (2 ≤ page.bloc.savedPlaces.length)) = true) := by
  have hnamed : ∀ items, page.view.items? = some items → Named items page.bloc.savedPlaces :=
    fun items hitems => ((hview items).mp hitems).2
  refine ⟨fun _ => hnamed, ?_⟩
  cases opens with
  | false =>
    refine iff_of_true ?_ rfl
    intro items hitems
    exact absurd ((hview items).mp hitems).1 (by simp)
  | true =>
    obtain ⟨items, hitems⟩ := hopens rfl
    have hshown : page.view.items? = some items := (hview items).mpr ⟨rfl, hitems⟩
    simp only [Bool.not_true, Bool.false_or, decide_eq_true_eq]
    exact ⟨fun h => (h items hshown).1, fun h => chooses_of_named hnamed fun _ _ => h⟩

/-- The bar alone is built. -/
theorem buildBar_chooses {page : WheelPage} (purchases : PurchasesState) (hshows : page.Shows)
    (hchooses : page.Chooses) :
    (page.buildBar purchases).Shows ∧ ((page.buildBar purchases).Chooses ↔
      (!page.bar.any (·.opens page.wheel.state page.bloc) ||
        decide (2 ≤ page.bloc.savedPlaces.length)) = true) := by
  unfold buildBar
  cases page.bar with
  | none => exact ⟨hshows, iff_of_true hchooses rfl⟩
  | some bar =>
    refine shows_and_chooses_of_built (fun items => items?_build) fun hopens => ?_
    have hopens' : bar.opens page.wheel.state page.bloc = true := hopens
    simp only [RandomPlaceBar.opens, Bool.and_eq_true] at hopens'
    exact exists_named_iff.mpr hopens'.2

/-- While the wheel is shown, the bloc clears the list, or lets it grow past
what is shown, or leaves it as it is. -/
theorem bloc_chooses {page : WheelPage} {event : SavedPlacesBloc.Event}
    {bloc : SavedPlacesBloc} (hshows : page.Shows) (hchooses : page.Chooses)
    (hstep : page.bloc.step event = some bloc) :
    Shows { page with bloc } ∧ (Chooses { page with bloc } ↔
      (page.view.items?.isNone || !page.bloc.changesPlaces event) = true) := by
  cases hview : page.view.items? with
  | none =>
    have hnone : ∀ items, page.view.items? ≠ some items := by simp [hview]
    exact ⟨fun _ items hitems => absurd hitems (hnone items),
      iff_of_true (fun items hitems => absurd hitems (hnone items)) rfl⟩
  | some items =>
    have hnamed := hshows hchooses items hview
    rcases SavedPlacesBloc.step_savedPlaces hstep with ⟨hkeeps, hsame⟩ | ⟨hchanges, hgone⟩
    · have hsame' : ∀ items', page.view.items? = some items' →
          Named items' bloc.savedPlaces := by
        intro items' hitems'
        rw [hsame]
        exact hshows hchooses items' hitems'
      refine ⟨fun _ => hsame', iff_of_true (chooses_of_named hsame' ?_) (by simp [hkeeps])⟩
      intro items' hitems'
      show 2 ≤ bloc.savedPlaces.length
      rw [hsame]
      exact (hchooses items' hitems').1
    · have hnot : ¬ Chooses { page with bloc } := by
        rcases hgone with hnil | ⟨place, places, hadded⟩
        · intro h
          have htwo : 2 ≤ bloc.savedPlaces.length := (h items hview).1
          simp [hnil] at htwo
        · refine not_chooses_of_length hview ?_
          have hlength := congrArg List.length hnamed
          simp only [List.length_map] at hlength
          show items.length < bloc.savedPlaces.length
          simp [hadded, hlength]
      exact ⟨fun h => absurd h hnot, iff_of_false hnot (by simp [hchanges])⟩

/-- What changes neither the view nor the bloc. -/
theorem chooses_of_same {page page' : WheelPage} (hshows : page.Shows)
    (hchooses : page.Chooses) (hview : page'.view = page.view) (hbloc : page'.bloc = page.bloc) :
    page'.Shows ∧ (page'.Chooses ↔ true = true) := by
  have hchooses' : page'.Chooses := by
    unfold Chooses draw
    rw [hview, hbloc]
    exact hchooses
  refine ⟨fun _ items hitems => ?_, iff_of_true hchooses' rfl⟩
  rw [hbloc]
  exact hshows hchooses items (hview ▸ hitems)

/-- One event keeps a choice just when it keeps the promise. -/
theorem step_chooses {page page' : WheelPage} {event : WheelEvent} (hshows : page.Shows)
    (hchooses : page.Chooses) (hstep : page.step event = some page') :
    page'.Shows ∧ (page'.Chooses ↔ page.keeps event = true) := by
  cases event with
  | bloc event =>
    obtain ⟨bloc, hbloc, rfl⟩ := Option.map_eq_some_iff.mp hstep
    exact bloc_chooses hshows hchooses hbloc
  | buildPage purchases =>
    cases hstep
    have habsent : ∀ items, RandomPlaceBar.View.absent.items? ≠ some items := nofun
    refine buildBar_chooses purchases ?_ ?_
    · exact fun _ items hitems => absurd hitems (habsent items)
    · exact fun items hitems => absurd hitems (habsent items)
  | buildBar purchases =>
    cases hstep
    exact buildBar_chooses purchases hshows hchooses
  | go =>
    cases hstep
    exact chooses_of_same hshows hchooses (onGo_view page) (onGo_bloc page)
  | fling random =>
    cases hstep
    exact chooses_of_same hshows hchooses (onFling_view random page) (onFling_bloc random page)
  | reset =>
    cases hstep
    exact chooses_of_same hshows hchooses rfl rfl

/-! ## Runs -/

/-- All along a run of the page every wheel that can be flung has two places
and chooses the one it shows, just when the run keeps the promise. -/
theorem wheel_chooses_iff {events : List WheelEvent}
    (h : (replay step free {} events).isSome) :
    (∀ k page, replay step free {} (events.take k) = some page → page.Chooses) ↔
      (replay step keeps {} events).isSome := by
  have hnone : ∀ items, ({} : WheelPage).view.items? ≠ some items := nofun
  refine replay_promise_iff (J := Shows) ?_ ?_
    (fun _ _ _ hshows hchooses hstep => step_chooses hshows hchooses hstep) h
  · exact fun _ items hitems => absurd hitems (hnone items)
  · exact fun items hitems => absurd hitems (hnone items)

/-- A subscriber. -/
def subscribed : PurchasesState := .loaded none (some true) {} none

/-- A place of the list, as it is stored. -/
def namedDoc (name : String) : Doc := Doc.ofList ({ name := some name } : Place).toDocument

/-- `rome` is opened, and the places with these names come in. -/
def opened (names : List String) : List WheelEvent :=
  [.bloc (.load (SavedPlacesBloc.cityList "rome") false),
    .bloc (.deliver 1 (.doc (some (userDoc "ada" ["rome"])))),
    .bloc (.deliver 0 (.doc (some (listDoc "ada" [])))),
    .bloc (.deliver 2 (.docs (names.map fun name => (name, namedDoc name))))] ++
  names.map (fun name => .bloc (.deliver 2 (.place name (some (namedDoc name))))) ++
  [.bloc (.wait 1000), .bloc (.finish 0 {}), .buildPage subscribed, .go,
    .buildBar subscribed]

/-- The wheel is opened on two places, flung, and reset. -/
def spunRun : List WheelEvent :=
  opened ["Forum", "Pantheon"] ++ [.fling 7, .reset, .buildBar subscribed]

theorem wheel_chooses_spun :
    (replay step free {} spunRun).isSome ∧
      ∀ k page, replay step free {} (spunRun.take k) = some page → page.Chooses := by
  have hrun : (replay step free {} spunRun).isSome := by decide
  have hkeeps : (replay step keeps {} spunRun).isSome := by decide
  exact ⟨hrun, (wheel_chooses_iff hrun).mpr hkeeps⟩

/-- `GoButton` opens the wheel on a single place. -/
theorem wheel_of_one :
    ∃ page, replay step free {} (opened ["Forum"]) = some page ∧
      page.view.items? = some ["Forum"] ∧ ¬ page.Chooses := by
  have hrun : (replay step free {} (opened ["Forum"])).any (fun page =>
      page.view.items? = some ["Forum"] ∧ page.bloc.savedPlaces.length = 1) = true := by decide
  obtain ⟨page, hpage, hends⟩ := (Option.any_eq_true _ _).mp hrun
  simp only [Bool.decide_and, Bool.and_eq_true, decide_eq_true_eq] at hends
  obtain ⟨hview, hone⟩ := hends
  refine ⟨page, hpage, hview, fun h => ?_⟩
  have htwo := (h _ hview).1
  omega

end WheelPage

end GottaGo
