/-
GottaGo.Places.Loads — loads that overlap.

The handler of a load assigns `placeStream` at its start, the listener of
its list owner assigns `listOwner` whenever a snapshot comes, and both
are read again when the delay is over; `_currentPlaceList` is assigned by
the list listeners of `LoadPlaces` alone. Nothing ties the four to one
request. `loads_coherent`: they agree in every run in which

* a load is requested only while none is waiting,
* the delay of a load ends only after its own list owner has come, with
  no other owner since, and
* `SavedListsUpdated` comes only while no load is waiting and the last
  list document that a `LoadPlaces` got is that of the list opened last.

`loads_mixed` is a run of two loads that overlap.
-/
import GottaGo.Bloc.SavedPlacesTheorems
import GottaGo.Membership.Agreement

namespace GottaGo

open GottaGo.Async GottaGo.Firestore GottaGo.PlaceListRepository

namespace SavedPlacesBloc

/-- The current list is the one opened last. -/
def currentIsLast (bloc : SavedPlacesBloc) : Bool :=
  match bloc.currentPlaceList, bloc.loads.getLast? with
  | some placeList, some last =>
    bloc.loads[placeList.load]?.any fun l => l.placeListId = last.placeListId
  | _, _ => false

/-- The events of the runs below: loads, and what they set off. -/
def loadsOnly (_ : SavedPlacesBloc) : Event → Bool
  | .addPlace _ => false
  | .removePlace _ => false
  | .updatePlace => false
  | _ => true

/-- A load is requested only while none is waiting. -/
def oneByOne (bloc : SavedPlacesBloc) (e : Event) : Bool :=
  loadsOnly bloc e &&
    match e with
    | .load _ _ => bloc.waiting.isEmpty
    | .savedListsUpdated => bloc.waiting.isEmpty
    | _ => true

/-- The promise of a coherent run. -/
def keepsLoads (bloc : SavedPlacesBloc) (e : Event) : Bool :=
  oneByOne bloc e &&
    match e with
    | .load placeList _ => placeList.placeListId.isSome
    | .savedListsUpdated => bloc.currentIsLast
    | .finish k _ =>
      match bloc.waiting[k]? with
      | some ⟨.load load, _⟩ => bloc.listOwner.any fun o => o.load = load.load
      | _ => true
    | _ => true

/-! ## What a loaded state is -/

/-- The loaded state is that of load `n`, in all its parts. -/
structure OfLoad (bloc : SavedPlacesBloc) (n : Nat) (placeList : From PlaceList)
    (listOwner : From User) (placeStream : From PlacesStream) : Prop where
  ofList : placeList.load = n
  ofOwner : listOwner.load = n
  ofStream : placeStream.load = n
  isTrue : bloc.TrueState placeList listOwner placeStream

/-- The bloc is loaded with the load requested last. -/
def LoadedLast (bloc : SavedPlacesBloc) : Prop :=
  ∃ n placeList listOwner placeStream, bloc.loads.length = n + 1 ∧
    bloc.state = .loaded placeList listOwner placeStream ∧
    bloc.OfLoad n placeList listOwner placeStream

/-- `SavedListsUpdated` requests the list opened last again. -/
def Reloads (bloc : SavedPlacesBloc) : Prop :=
  ∃ placeList last l, bloc.currentPlaceList = some placeList ∧
    bloc.loads.getLast? = some last ∧
    Load.of? placeList.value false = some l ∧ l.placeListId = last.placeListId ∧
    step bloc .savedListsUpdated = some (bloc.open_ l)

/-! ## One load at a time -/

variable {bloc bloc' : SavedPlacesBloc}

/-- At most the last load is waiting, and a loaded state names it. -/
structure OneWaiting (bloc : SavedPlacesBloc) : Prop where
  waiting : bloc.waiting = [] ∨ ∃ load due, bloc.waiting = [⟨.load load, due⟩] ∧
    bloc.loads.length = load.load + 1
  state : ∀ p o s, bloc.state = .loaded p o s → bloc.loads.length = p.load + 1

theorem oneWaiting_empty : OneWaiting {} where
  waiting := .inl rfl
  state := by simp

/-- Steps that leave loads, waiting handlers and state. -/
theorem OneWaiting.frame (h : OneWaiting bloc) (hloads : bloc'.loads = bloc.loads)
    (hwaiting : bloc'.waiting = bloc.waiting) (hstate : bloc'.state = bloc.state) :
    OneWaiting bloc' where
  waiting := by
    rw [hwaiting, hloads]
    exact h.waiting
  state := by
    rw [hloads, hstate]
    exact h.state

theorem OneWaiting.load (hwaiting : bloc.waiting = []) (placeList : PlaceList)
    (visited : Bool) : OneWaiting (bloc.load placeList visited) := by
  unfold SavedPlacesBloc.load
  cases Load.of? placeList visited with
  | some l =>
    refine ⟨.inr ⟨⟨bloc.loads.length, l⟩, bloc.now + l.delay, ?_, by simp⟩, ?_⟩
    · simp [SavedPlacesBloc.open_, hwaiting]
    · intro p o s hs
      cases hs
  | none => exact ⟨.inl hwaiting, fun p o s hs => by cases hs⟩

/-- A callback leaves the loads, what is waiting, the stream and the
state. -/
theorem deliver_frame {i : Nat} {snap : PlacesSnapshot}
    (hdeliver : bloc.deliver i snap = some bloc') :
    bloc'.loads = bloc.loads ∧ bloc'.waiting = bloc.waiting ∧
      bloc'.placeStream = bloc.placeStream ∧ bloc'.state = bloc.state := by
  rcases deliver_cases hdeliver with ⟨load, d, -, -, rfl⟩ | ⟨load, d, -, -, rfl⟩ |
    ⟨load, userId, d, -, -, rfl⟩ | ⟨load, shown, docs, -, -, rfl⟩ |
    ⟨load, shown, placeId, d, -, -, rfl⟩
  · unfold onPlaceList
    split <;> exact ⟨rfl, rfl, rfl, rfl⟩
  · unfold onListOwner
    split <;> exact ⟨rfl, rfl, rfl, rfl⟩
  · unfold onContributor
    split <;> exact ⟨rfl, rfl, rfl, rfl⟩
  · exact ⟨rfl, rfl, rfl, rfl⟩
  · exact ⟨rfl, rfl, rfl, rfl⟩

/-- The one handler that can end is that of the last load. -/
theorem OneWaiting.finish_cases (h : OneWaiting bloc) {k : Nat} {found : Found}
    (hstep : SavedPlacesBloc.step bloc (.finish k found) = some bloc') :
    ∃ load due, bloc.waiting = [⟨.load load, due⟩] ∧ bloc.loads.length = load.load + 1 ∧
      k = 0 ∧ bloc' = { bloc with waiting := [] }.finishLoad load := by
  simp only [SavedPlacesBloc.step] at hstep
  rcases h.waiting with hnone | ⟨load, due, hone, hlast⟩
  · simp [hnone] at hstep
  · cases k with
    | zero =>
      simp only [hone] at hstep
      split at hstep
      · next w hw =>
        cases hw
        split at hstep
        · cases hstep
          exact ⟨load, due, hone, hlast, rfl, rfl⟩
        · cases hstep
      · cases hstep
    | succ k => simp [hone] at hstep

theorem OneWaiting.finishLoad (h : OneWaiting bloc) {load : From Load}
    (hlast : bloc.loads.length = load.load + 1) :
    OneWaiting ({ bloc with waiting := [] }.finishLoad load) := by
  unfold SavedPlacesBloc.finishLoad
  split
  · refine ⟨.inl rfl, ?_⟩
    intro p o s hs
    cases hs
    exact hlast
  · exact ⟨.inl rfl, h.state⟩

theorem OneWaiting.step (h : OneWaiting bloc) {e : Event} (hok : oneByOne bloc e = true)
    (hstep : SavedPlacesBloc.step bloc e = some bloc') : OneWaiting bloc' := by
  cases e with
  | load placeList visited =>
    simp only [oneByOne, loadsOnly, Bool.true_and, List.isEmpty_iff] at hok
    cases hstep
    exact .load hok placeList visited
  | addPlace placeList => simp [oneByOne, loadsOnly] at hok
  | removePlace placeList => simp [oneByOne, loadsOnly] at hok
  | updatePlace => simp [oneByOne, loadsOnly] at hok
  | savedListsUpdated =>
    simp only [oneByOne, loadsOnly, Bool.true_and, List.isEmpty_iff] at hok
    simp only [SavedPlacesBloc.step] at hstep
    split at hstep
    · cases hstep
      exact .load hok _ false
    · cases hstep
      exact h
  | deliver i snap =>
    obtain ⟨hloads, hwaiting, -, hstate⟩ := deliver_frame hstep
    exact h.frame hloads hwaiting hstate
  | wait ms =>
    simp only [SavedPlacesBloc.step] at hstep
    split at hstep
    · cases hstep
      exact h.frame rfl rfl rfl
    · cases hstep
  | finish k found =>
    obtain ⟨load, due, -, hlast, -, rfl⟩ := h.finish_cases hstep
    exact h.finishLoad hlast

/-! ## Coherent runs -/

/-- The stream is that of the last load, a loaded state is that of one
load, and with no load waiting there is one. -/
structure OneAtATime (bloc : SavedPlacesBloc) : Prop where
  stream : bloc.loads ≠ [] → ∃ s, bloc.placeStream = some s ∧
    bloc.loads.length = s.load + 1
  state : ∀ p o s, bloc.state = .loaded p o s → o.load = p.load ∧ s.load = p.load
  last : bloc.loads ≠ [] → bloc.waiting = [] → ∃ p o s, bloc.state = .loaded p o s

theorem oneAtATime_empty : OneAtATime {} where
  stream := by simp
  state := by simp
  last := by simp

theorem OneAtATime.open_ (l : Load) (bloc : SavedPlacesBloc) :
    OneAtATime (bloc.open_ l) where
  stream _ := ⟨_, rfl, by simp⟩
  state p o s hs := by cases hs
  last _ hnone := by simp [SavedPlacesBloc.open_] at hnone

/-- Steps that leave loads, waiting handlers, stream and state. -/
theorem OneAtATime.frame (h : OneAtATime bloc) (hloads : bloc'.loads = bloc.loads)
    (hwaiting : bloc'.waiting = bloc.waiting) (hstream : bloc'.placeStream = bloc.placeStream)
    (hstate : bloc'.state = bloc.state) : OneAtATime bloc' where
  stream := by
    rw [hloads, hstream]
    exact h.stream
  state := by
    rw [hstate]
    exact h.state
  last := by
    rw [hloads, hwaiting, hstate]
    exact h.last

/-- The delay of the one load that is waiting ends after its list owner has
come. -/
theorem OneAtATime.finishLoad (h : OneAtATime bloc) {load : From Load}
    (hlast : bloc.loads.length = load.load + 1) {o : From User}
    (ho : bloc.listOwner = some o) (hload : o.load = load.load) :
    OneAtATime ({ bloc with waiting := [] }.finishLoad load) := by
  have hne : bloc.loads ≠ [] := by
    intro hnil
    simp [hnil] at hlast
  obtain ⟨s, hs, hsload⟩ := h.stream hne
  have hfinish : { bloc with waiting := [] }.finishLoad load =
      { bloc with
        waiting := []
        state := .loaded ⟨load.load, load.value.placeList⟩ o s } := by
    simp [SavedPlacesBloc.finishLoad, ho, hs]
  rw [hfinish]
  refine ⟨fun _ => ⟨s, hs, hsload⟩, ?_, fun _ _ => ⟨_, _, _, rfl⟩⟩
  intro p o' s' hstate
  cases hstate
  have hsame : s.load = load.load := by omega
  exact ⟨hload, hsame⟩

/-- A current list that is the one opened last can be loaded again. -/
theorem Truthful.reload (h : Truthful bloc) (hlast : bloc.currentIsLast = true) :
    bloc.Reloads := by
  unfold currentIsLast at hlast
  split at hlast
  · next p last hp hl =>
    obtain ⟨l, hload, hid⟩ := h.currentPlaceList p hp
    simp only [hload, Option.any_some, decide_eq_true_eq] at hlast
    have hl' : Load.of? p.value false = some ⟨p.value, l.placeListId, hid, false⟩ :=
      Load.of?_eq_some.mpr ⟨rfl, rfl⟩
    refine ⟨p, last, _, hp, hl, hl', hlast, ?_⟩
    simp [SavedPlacesBloc.step, hp, SavedPlacesBloc.load, hl']
  · cases hlast

theorem OneAtATime.step (h : OneAtATime bloc) (hone : OneWaiting bloc) (htrue : Truthful bloc)
    {e : Event} (hok : keepsLoads bloc e = true)
    (hstep : SavedPlacesBloc.step bloc e = some bloc') : OneAtATime bloc' := by
  unfold keepsLoads at hok
  rw [Bool.and_eq_true] at hok
  cases e with
  | load placeList visited =>
    obtain ⟨id, hid⟩ := Option.isSome_iff_exists.mp hok.2
    have hl : Load.of? placeList visited = some ⟨placeList, id, hid, visited⟩ :=
      Load.of?_eq_some.mpr ⟨rfl, rfl⟩
    cases hstep
    simp only [SavedPlacesBloc.load, hl]
    exact .open_ _ bloc
  | addPlace placeList => simp [oneByOne, loadsOnly] at hok
  | removePlace placeList => simp [oneByOne, loadsOnly] at hok
  | updatePlace => simp [oneByOne, loadsOnly] at hok
  | savedListsUpdated =>
    obtain ⟨p, last, l, -, -, -, -, hreload⟩ := htrue.reload hok.2
    rw [hreload] at hstep
    cases hstep
    exact .open_ l bloc
  | deliver i snap =>
    obtain ⟨hloads, hwaiting, hstream, hstate⟩ := deliver_frame hstep
    exact h.frame hloads hwaiting hstream hstate
  | wait ms =>
    simp only [SavedPlacesBloc.step] at hstep
    split at hstep
    · cases hstep
      exact h.frame rfl rfl rfl rfl
    · cases hstep
  | finish k found =>
    obtain ⟨load, due, hwaiting, hlast, rfl, rfl⟩ := hone.finish_cases hstep
    have howner : bloc.listOwner.any (fun o => o.load = load.load) = true := by
      simpa [hwaiting] using hok.2
    obtain ⟨o, ho, hload⟩ := (Option.any_eq_true _ _).mp howner
    exact h.finishLoad hlast ho (of_decide_eq_true hload)

/-- In a coherent run every loaded state is that of one load, the last load
wins once none is waiting, and `SavedListsUpdated` loads the list opened
last. -/
theorem loads_coherent (events : List Event) (bloc : SavedPlacesBloc)
    (h : Events.replay step keepsLoads {} events = some bloc) :
    (∀ p o s, bloc.state = .loaded p o s → bloc.OfLoad p.load p o s) ∧
      (bloc.loads ≠ [] → bloc.waiting = [] → bloc.LoadedLast) ∧
      (keepsLoads bloc .savedListsUpdated = true → bloc.Reloads) := by
  have hall : Truthful bloc ∧ OneWaiting bloc ∧ OneAtATime bloc := by
    apply Events.replay_invariant (J := fun b => Truthful b ∧ OneWaiting b ∧ OneAtATime b) h
      ⟨truthful_empty, oneWaiting_empty, oneAtATime_empty⟩
    intro b e b' hb hok hstep
    have honeByOne : oneByOne b e = true := (Bool.and_eq_true_iff.mp hok).1
    exact ⟨hb.1.step hstep, hb.2.1.step honeByOne hstep, hb.2.2.step hb.2.1 hb.1 hok hstep⟩
  obtain ⟨htrue, hwait, hone⟩ := hall
  have hload : ∀ p o s, bloc.state = .loaded p o s → bloc.OfLoad p.load p o s := by
    intro p o s hs
    obtain ⟨ho, hstream⟩ := hone.state p o s hs
    exact ⟨rfl, ho, hstream, htrue.state p o s hs⟩
  refine ⟨hload, ?_, ?_⟩
  · intro hne hwaiting
    obtain ⟨p, o, s, hs⟩ := hone.last hne hwaiting
    exact ⟨p.load, p, o, s, hwait.state p o s hs, hs, hload p o s hs⟩
  · intro hok
    exact htrue.reload (Bool.and_eq_true_iff.mp hok).2

/-- A list of `ada`, with an id, which is also its name. -/
def cityList (placeListId : String) : PlaceList where
  placeListId := some placeListId
  name := placeListId
  listOwnerId := "ada"
  icon := []
  placeCount := 0
  contributorIds := some []

/-- `rome` is opened, and loaded again when it is edited. -/
def editedRun : List Event :=
  [.load (cityList "rome") false, .deliver 1 (.doc (some (userDoc "ada" ["rome"]))),
    .deliver 0 (.doc (some (listDoc "ada" []))), .wait 1000, .finish 0 {},
    .savedListsUpdated, .wait 600, .deliver 4 (.doc (some (userDoc "ada" ["rome"]))),
    .wait 400, .finish 0 {}]

theorem loads_coherent_edited :
    ∃ bloc, Events.replay step keepsLoads {} editedRun = some bloc ∧
      bloc.loads.length = 2 ∧ bloc.LoadedLast := by
  have hrun : (Events.replay step keepsLoads {} editedRun).any
      (fun b => b.loads.length = 2 ∧ b.waiting.isEmpty) = true := by decide
  obtain ⟨bloc, hbloc, hends⟩ := (Option.any_eq_true _ _).mp hrun
  simp only [Bool.decide_and, Bool.and_eq_true, decide_eq_true_eq, List.isEmpty_iff] at hends
  obtain ⟨htwo, hnone⟩ := hends
  have hne : bloc.loads ≠ [] := by
    intro hnil
    simp [hnil] at htwo
  exact ⟨bloc, hbloc, htwo, (loads_coherent editedRun bloc hbloc).2.1 hne hnone⟩

/-- The visited places of `paris` are asked for before the places of `rome` have
come: the two handlers end in the other order, and `rome` stands over the stream
of `paris`. -/
def overlappingRun : List Event :=
  [.load (cityList "rome") false,
    .deliver 1 (.doc (some (userDoc "ada" ["rome", "paris"]))),
    .wait 100, .load (cityList "paris") true, .wait 600, .finish 1 {}, .wait 300,
    .finish 0 {}]

theorem loads_mixed :
    ¬ ∀ events bloc, Events.replay step loadsOnly {} events = some bloc →
      (∀ p o s, bloc.state = .loaded p o s → bloc.OfLoad p.load p o s) ∧
        (bloc.loads ≠ [] → bloc.waiting = [] → bloc.LoadedLast) ∧
        (bloc.loads ≠ [] → bloc.Reloads) := by
  intro hclaim
  have hrun : (Events.replay step loadsOnly {} overlappingRun).any (fun b =>
      b.state.loaded?.any fun x => x.1.load ≠ x.2.2.load) = true := by decide
  obtain ⟨bloc, hbloc, hends⟩ := (Option.any_eq_true _ _).mp hrun
  obtain ⟨⟨p, o, s⟩, hx, hne⟩ := (Option.any_eq_true _ _).mp hends
  have hstate : bloc.state = .loaded p o s := SavedPlacesState.loaded?_eq_some.mp hx
  have hload := (hclaim overlappingRun bloc hbloc).1 p o s hstate
  exact of_decide_eq_true hne hload.ofStream.symm

end SavedPlacesBloc

end GottaGo
