/-
GottaGo.Explore.Chip — whether the Explore button asks for the location that
the page shows on its chip.

What it asks for are the texts of the dialog. Confirming the dialog makes
the location of them, so a request can only be for another place once the
dialog has been opened again and dismissed: with texts that somebody has
typed, or with those that it starts with, which it has read off the
location. The latter are the city and the state just when neither has a
comma in it (`Locating.Set.reset_agrees_iff`). `keepsLocation` promises that
the dialog is dismissed only with texts of the location, and
`chip_agrees_iff` says that it is exact.

The chip itself is built with the page. It has the location on it but for the
time between the end of the dialog and the next build (`ChipShows`).
-/
import GottaGo.Explore.Screen

namespace GottaGo

open GottaGo.Async GottaGo.Async.Events

namespace Locating

variable {l l' : Locating} {m : LocatingMove}

/-- A dialog in which nobody has typed has the texts that it starts with, and
while there is no location these are those of a request. -/
structure Opened (l : Locating) : Prop where
  set : l.Set
  reset : l.dialog = some false → l.initState = some l
  unset : l.dialog = some false → l.location = "" → l.Agrees

/-- What dismissing the dialog takes. -/
def keepsLocation (l : Locating) : LocatingMove → Bool
  | .dismiss =>
    if l.dialog = some false then decide (l.location = "" ∨ l.OneComma) else decide l.Agrees
  | _ => true

/-- Starting once more changes nothing. -/
theorem initState_initState (h : l.initState = some l') (open? : Option Bool) :
    initState { l' with dialog := open? } = some { l' with dialog := open? } := by
  unfold initState at h ⊢
  by_cases hne : l.location ≠ ""
  · rw [if_pos hne] at h
    split at h
    · next city state rest hsplit =>
      cases h
      simp only [if_pos hne, hsplit]
    · cases h
  · rw [if_neg hne] at h
    cases h
    rw [if_neg hne]

theorem initState_location (h : l.initState = some l') : l'.location = l.location := by
  unfold initState at h
  split at h
  · split at h
    · cases h
      rfl
    · cases h
  · cases h
    rfl

theorem agrees_onSetLocation (l : Locating) (open? : Option Bool) :
    Agrees { l.onSetLocation l.city l.state with dialog := open? } := by
  have hne : l.city ++ ", " ++ l.state ≠ "" := by
    intro hnil
    have hlist := congrArg String.toList hnil
    simp at hlist
  exact (if_neg hne).mpr rfl

theorem set_onSetLocation (l : Locating) (open? : Option Bool) :
    Set { l.onSetLocation l.city l.state with dialog := open? } :=
  fun _ => ⟨l.cityText, l.stateText, rfl⟩

/-- The dialog leaves the location until it closes. -/
theorem location_of_open (h : l.step m = some l') (hopen : l'.dialog ≠ none) :
    l'.location = l.location := by
  unfold Locating.step at h
  split at h
  · obtain ⟨reset, hreset, rfl⟩ := Option.map_eq_some_iff.mp h
    have hloc : reset.location = l.location := initState_location hreset
    exact hloc
  · cases h
    rfl
  · cases h
    rfl
  · split at h
    · cases h
      exact absurd rfl hopen
    · cases h
      rfl
  · cases h
    rfl
  · cases h

/-- While the dialog is closed, the texts stay those of the location just when
it has been dismissed with texts of the location. -/
theorem Opened.step (hl : l.Opened) (hagrees : l.dialog = none → l.Agrees)
    (h : l.step m = some l') :
    l'.Opened ∧ ((l'.dialog = none → l'.Agrees) ↔ l.keepsLocation m = true) := by
  unfold Locating.step at h
  split at h
  · next hdialog =>
    obtain ⟨reset, hreset, rfl⟩ := Option.map_eq_some_iff.mp h
    have hloc := initState_location hreset
    refine ⟨⟨fun hne => ?_, fun _ => initState_initState hreset _, fun _ hnil => ?_⟩,
      iff_of_true nofun rfl⟩
    · show ∃ city state, reset.location = _
      rw [hloc]
      exact hl.set (hloc ▸ hne)
    · have hnil' : l.location = "" := hloc ▸ hnil
      have hsame : reset = l := by
        unfold initState at hreset
        rw [if_neg (not_not_intro hnil')] at hreset
        cases hreset
        rfl
      subst hsame
      exact hagrees hdialog
  · cases h
    exact ⟨⟨hl.set, nofun, nofun⟩, iff_of_true nofun rfl⟩
  · cases h
    exact ⟨⟨hl.set, nofun, nofun⟩, iff_of_true nofun rfl⟩
  · next hdialog =>
    split at h
    · cases h
      exact ⟨⟨l.set_onSetLocation none, nofun, nofun⟩,
        iff_of_true (fun _ => l.agrees_onSetLocation none) rfl⟩
    · cases h
      exact ⟨hl, iff_of_true (fun hnone => by rw [hdialog] at hnone; cases hnone) rfl⟩
  · next typed hdialog =>
    cases h
    refine ⟨⟨hl.set, nofun, nofun⟩, ?_⟩
    have hiff : ((none : Option Bool) = none → l.Agrees) ↔ l.keepsLocation .dismiss = true := by
      rw [forall_prop_of_true rfl, keepsLocation]
      cases typed with
      | true => simp [hdialog]
      | false =>
        by_cases hnil : l.location = ""
        · simp [hdialog, hnil, hl.unset hdialog hnil]
        · simp [hdialog, hnil, hl.set.reset_agrees_iff hnil (hl.reset hdialog)]
    exact hiff
  · cases h

end Locating

namespace ExploreScreen

variable {resp : Nat → ExploreAnswer} {s s' : ExploreScreen} {m : ExploreMove}

/-- The Explore button asks for a location; for none where the chip says "Set
Location". -/
def AsksFor (s : ExploreScreen) (location : String) : Prop :=
  if location = "" then s.request.city = some "" ∧ s.request.state = some ""
  else ∃ city state, s.request.city = some city ∧ s.request.state = some state ∧
    city ++ ", " ++ state = location

theorem asksFor_location_iff : s.AsksFor s.locating.location ↔ s.locating.Agrees := by
  unfold AsksFor Locating.Agrees request
  split <;> simp

/-- While the dialog is closed, the button asks for the location of the bloc, and
on a page that has been built since the dialog closed for the one on the chip. -/
def ChipAgrees (s : ExploreScreen) : Prop :=
  s.locating.dialog = none → s.AsksFor s.locating.location ∧
    (s.shown ≠ none → s.rebuilding = false → s.AsksFor s.chip)

/-- The chip of a page that is up to date has the location on it. -/
def ChipShows (s : ExploreScreen) : Prop :=
  s.shown ≠ none → s.rebuilding = false → s.chip = s.locating.location

theorem ChipShows.agrees_iff (h : s.ChipShows) :
    s.ChipAgrees ↔ (s.locating.dialog = none → s.locating.Agrees) := by
  refine forall_congr' fun _ => ?_
  rw [asksFor_location_iff, and_iff_left_iff_imp]
  intro hagrees hshown hbuilt
  rw [h hshown hbuilt]
  exact asksFor_location_iff.mpr hagrees

/-- The promise of a run. -/
def keepsLocation (s : ExploreScreen) : ExploreMove → Bool
  | .locate m => s.locating.keepsLocation m
  | _ => true

/-- Only the dialog touches the location and its texts, and only a build the
chip. -/
theorem step_locating (h : s.step resp m = some s') :
    (∃ move, m = .locate move ∧ s.locate move = some s') ∨
      (∀ move, m ≠ .locate move) ∧ s'.locating = s.locating ∧
        (s'.chip = s.locating.location ∨ s'.shown = none ∨
          s'.chip = s.chip ∧ s'.rebuilding = s.rebuilding ∧ s'.shown = s.shown) := by
  cases m with
  | locate move => exact .inl ⟨move, rfl, h⟩
  | explore =>
    refine .inr ⟨nofun, ?_⟩
    simp only [step] at h
    split at h
    · cases h
      unfold press explored
      cases s.exploring.step .exploreButton <;> exact ⟨rfl, .inr (.inr ⟨rfl, rfl, rfl⟩)⟩
    · cases h
  | answer i =>
    refine .inr ⟨nofun, ?_⟩
    simp only [step, answer] at h
    split at h
    · next load _ =>
      obtain ⟨rest, -, rfl⟩ := Option.map_eq_some_iff.mp h
      cases rest <;> exact ⟨rfl, .inr (.inr ⟨rfl, rfl, rfl⟩)⟩
    · cases h
  | addPlaceToNewList place placeListName =>
    cases h
    exact .inr ⟨nofun, rfl, .inr (.inr ⟨rfl, rfl, rfl⟩)⟩
  | typeSearch text =>
    simp only [step] at h
    split at h
    · cases h
      exact .inr ⟨nofun, rfl, .inr (.inr ⟨rfl, rfl, rfl⟩)⟩
    · cases h
  | added i ok =>
    simp only [step] at h
    split at h
    · cases h
      exact .inr ⟨nofun, rfl, .inr (.inr ⟨rfl, rfl, rfl⟩)⟩
    · cases h
  | leavePage =>
    simp only [step] at h
    split at h
    · obtain ⟨exploring, -, rfl⟩ := Option.map_eq_some_iff.mp h
      exact .inr ⟨nofun, rfl, .inr (.inl rfl)⟩
    · cases h
  | thumbDown | thumbUp =>
    simp only [step] at h
    split at h
    · obtain ⟨exploring, -, rfl⟩ := Option.map_eq_some_iff.mp h
      exact .inr ⟨nofun, rfl, .inr (.inr ⟨rfl, rfl, rfl⟩)⟩
    · cases h
  | openPage | build =>
    simp only [step, build] at h
    split at h
    · obtain ⟨exploring, -, rfl⟩ := Option.map_eq_some_iff.mp h
      exact .inr ⟨nofun, rfl, .inl rfl⟩
    · cases h

theorem locate_eq_some {move : LocatingMove} (hs : s.locate move = some s') :
    ∃ locating, s.locating.step move = some locating ∧
      s' = { s with
        locating := locating, rebuilding := s.rebuilding || locating.dialog.isNone } := by
  unfold locate at hs
  split at hs
  · cases hs
  · obtain ⟨locating, hstep, rfl⟩ := Option.map_eq_some_iff.mp hs
    exact ⟨locating, hstep, rfl⟩

theorem ChipShows.locate (h : s.ChipShows) {move : LocatingMove}
    (hs : s.locate move = some s') : s'.ChipShows := by
  obtain ⟨locating, hstep, rfl⟩ := locate_eq_some hs
  intro hshown hup
  obtain ⟨hold, hopen⟩ : s.rebuilding = false ∧ locating.dialog ≠ none := by
    simpa [Option.ne_none_iff_isSome] using hup
  exact (h hshown hold).trans (Locating.location_of_open hstep hopen).symm

theorem ChipShows.step (h : s.ChipShows) (hs : s.step resp m = some s') : s'.ChipShows := by
  rcases step_locating hs with ⟨move, -, hmove⟩ | ⟨-, hsame, hbuilt | hclosed | ⟨hc, hr, hsh⟩⟩
  · exact h.locate hmove
  · exact fun _ _ => hbuilt.trans (congrArg Locating.location hsame.symm)
  · exact fun hshown => absurd hclosed hshown
  · intro hshown hup
    rw [hc, hsame]
    exact h (hsh ▸ hshown) (hr ▸ hup)

/-- All along a run from the launch of the app: while the dialog is closed, the
Explore button asks for the location, and so for the one on the chip of a page
that is up to date, just when the dialog is only ever dismissed with texts of
the location: with such texts if somebody has typed in it, and otherwise while
the location, if there is one, has a single comma. -/
theorem chip_agrees_iff (resp : Nat → ExploreAnswer) {ms : List ExploreMove}
    (h : (replay (step resp) free {} ms).isSome) :
    (∀ k t, replay (step resp) free {} (ms.take k) = some t → t.ChipAgrees) ↔
      (replay (step resp) keepsLocation {} ms).isSome := by
  refine replay_promise_iff (J := fun s => s.locating.Opened ∧ s.ChipShows)
    (P := ChipAgrees) ?_ ?_ ?_ h
  · exact ⟨⟨fun hne => absurd rfl hne, nofun, nofun⟩, fun hshown => absurd rfl hshown⟩
  · exact (ChipShows.agrees_iff fun hshown => absurd rfl hshown).mpr fun _ => by decide
  · rintro s m s' ⟨hopened, hshows⟩ hagrees hstep
    have hshows' : s'.ChipShows := hshows.step hstep
    rw [hshows.agrees_iff] at hagrees
    rw [hshows'.agrees_iff, and_assoc, and_left_comm]
    refine ⟨hshows', ?_⟩
    rcases step_locating hstep with ⟨move, rfl, hmove⟩ | ⟨hother, hsame, -⟩
    · obtain ⟨locating, hlocating, rfl⟩ := locate_eq_some hmove
      exact hopened.step hagrees hlocating
    · rw [hsame]
      have hkeeps : s.keepsLocation m = true := by
        cases m with
        | locate move => exact absurd rfl (hother move)
        | _ => rfl
      exact ⟨hopened, iff_of_true hagrees hkeeps⟩

/-- The location is set to Washington, and the dialog is opened and dismissed
once more. -/
def washington : List ExploreMove :=
  [.openPage, .locate .openDialog, .locate (.typeCity "Washington, D.C."),
    .locate (.typeState "USA"), .locate .setLocation, .build, .locate .openDialog,
    .locate .dismiss]

/-- The button asks for Washington in the state of D.C. then. -/
theorem chip_agrees_washington :
    ¬ ∀ k t, replay (step fun _ _ => .error .formatException) free {} (washington.take k) =
      some t → t.ChipAgrees := by
  rw [chip_agrees_iff _ (by decide)]
  decide

end ExploreScreen

end GottaGo
