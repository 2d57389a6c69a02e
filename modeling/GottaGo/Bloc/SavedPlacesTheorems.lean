/-
GottaGo.Bloc.SavedPlacesTheorems — every value of `SavedPlacesBloc`
comes from the load its number names.

`Truthful` holds of the bloc at first and after every event, whatever the
order of the events: listeners and waiting handlers are those of loads
that were requested, and the fields and the loaded state hold what the
loads they name put there.
-/
import GottaGo.Async.Events
import GottaGo.Bloc.SavedPlaces
import GottaGo.Model.DocumentsTheorems

namespace GottaGo

open GottaGo.Async GottaGo.Firestore GottaGo.Rx GottaGo.PlaceListRepository

/-- The load a listener was opened by. -/
def PlacesListener.load : PlacesListener → From Load
  | .placeList load => load
  | .listOwner load => load
  | .places load _ => load
  | .contributor load _ => load

namespace SavedPlacesBloc

/-- Some load has this number, and what is said holds of it. -/
def Comes (bloc : SavedPlacesBloc) (n : Nat) (P : Load → Prop) : Prop :=
  ∃ l, bloc.loads[n]? = some l ∧ P l

/-- The parts of a loaded state come from the loads they name. -/
structure TrueState (bloc : SavedPlacesBloc) (placeList : From PlaceList)
    (listOwner : From User) (placeStream : From PlacesStream) : Prop where
  placeList : bloc.Comes placeList.load fun l => placeList.value = l.placeList
  listOwner : bloc.Comes listOwner.load fun l =>
    listOwner.value.id = some l.placeList.listOwnerId
  placeStream : bloc.Comes placeStream.load fun l => placeStream.value = l.placesList

structure Truthful (bloc : SavedPlacesBloc) : Prop where
  listeners : ∀ x ∈ bloc.listeners, bloc.Comes x.load.load fun l => l = x.load.value
  waiting : ∀ w ∈ bloc.waiting, ∀ load, w.handler = .load load →
    bloc.Comes load.load fun l => l = load.value
  placeStream : ∀ s ∈ bloc.placeStream, bloc.Comes s.load fun l => s.value = l.placesList
  listOwner : ∀ o ∈ bloc.listOwner, bloc.Comes o.load fun l =>
    o.value.id = some l.placeList.listOwnerId
  currentPlaceList : ∀ p ∈ bloc.currentPlaceList, bloc.Comes p.load fun l =>
    p.value.placeListId = some l.placeListId
  state : ∀ p o s, bloc.state = .loaded p o s → bloc.TrueState p o s

variable {bloc bloc' : SavedPlacesBloc}

/-- Loads keep their numbers. -/
theorem Comes.mono {n : Nat} {P : Load → Prop} (h : bloc.Comes n P)
    (hloads : bloc.loads <+: bloc'.loads) : bloc'.Comes n P := by
  obtain ⟨l, hl, hP⟩ := h
  obtain ⟨ls, hls⟩ := hloads
  have hn : n < bloc.loads.length := (List.getElem?_eq_some_iff.mp hl).1
  refine ⟨l, ?_, hP⟩
  rw [← hls, List.getElem?_append_left hn, hl]

/-- The load requested last. -/
theorem comes_last {P : Load → Prop} {l : Load} (hloads : bloc'.loads = bloc.loads ++ [l])
    (hP : P l) : bloc'.Comes bloc.loads.length P :=
  ⟨l, by simp [hloads], hP⟩

/-- A step that keeps the loads stays truthful if what it changes is. -/
theorem Truthful.mono (h : Truthful bloc) (hloads : bloc.loads <+: bloc'.loads)
    (hlisteners : ∀ x ∈ bloc'.listeners, (∃ y ∈ bloc.listeners, y.load = x.load) ∨
      bloc'.Comes x.load.load fun l => l = x.load.value)
    (hwaiting : ∀ w ∈ bloc'.waiting, w ∈ bloc.waiting ∨
      ∀ load, w.handler = .load load → bloc'.Comes load.load fun l => l = load.value)
    (hstream : bloc'.placeStream = bloc.placeStream ∨
      ∀ s ∈ bloc'.placeStream, bloc'.Comes s.load fun l => s.value = l.placesList)
    (howner : bloc'.listOwner = bloc.listOwner ∨ ∀ o ∈ bloc'.listOwner,
      bloc'.Comes o.load fun l => o.value.id = some l.placeList.listOwnerId)
    (hcurrent : bloc'.currentPlaceList = bloc.currentPlaceList ∨
      ∀ p ∈ bloc'.currentPlaceList, bloc'.Comes p.load fun l =>
        p.value.placeListId = some l.placeListId)
    (hstate : bloc'.state = bloc.state ∨
      ∀ p o s, bloc'.state = .loaded p o s → bloc'.TrueState p o s) : Truthful bloc' where
  listeners x hx := by
    rcases hlisteners x hx with hold | hnew
    · obtain ⟨y, hy, hload⟩ := hold
      rw [← hload]
      exact (h.listeners y hy).mono hloads
    · exact hnew
  waiting w hw load hload := by
    rcases hwaiting w hw with hold | hnew
    · exact (h.waiting w hold load hload).mono hloads
    · exact hnew load hload
  placeStream s hs := by
    rcases hstream with hold | hnew
    · exact (h.placeStream s (hold ▸ hs)).mono hloads
    · exact hnew s hs
  listOwner o ho := by
    rcases howner with hold | hnew
    · exact (h.listOwner o (hold ▸ ho)).mono hloads
    · exact hnew o ho
  currentPlaceList p hp := by
    rcases hcurrent with hold | hnew
    · exact (h.currentPlaceList p (hold ▸ hp)).mono hloads
    · exact hnew p hp
  state p o s hs := by
    rcases hstate with hold | hnew
    · have htrue := h.state p o s (hold ▸ hs)
      exact ⟨htrue.placeList.mono hloads, htrue.listOwner.mono hloads,
        htrue.placeStream.mono hloads⟩
    · exact hnew p o s hs

theorem truthful_empty : Truthful {} where
  listeners := by simp
  waiting := by simp
  placeStream := by simp
  listOwner := by simp
  currentPlaceList := by simp
  state := by simp

/-! ## Loads -/

@[simp] theorem open_loads (l : Load) (bloc : SavedPlacesBloc) :
    (bloc.open_ l).loads = bloc.loads ++ [l] := rfl

theorem Truthful.open_ (h : Truthful bloc) (l : Load) : Truthful (bloc.open_ l) := by
  have hnew : (bloc.open_ l).Comes bloc.loads.length fun l' => l' = l :=
    comes_last (open_loads l bloc) rfl
  apply h.mono (by simp)
  · intro x hx
    rcases List.mem_append.mp hx with hold | hx
    · exact .inl ⟨x, hold, rfl⟩
    · simp only [List.mem_cons, List.not_mem_nil, or_false] at hx
      rcases hx with rfl | rfl <;> exact .inr hnew
  · intro w hw
    rcases List.mem_append.mp hw with hold | hw
    · exact .inl hold
    · rw [List.mem_singleton] at hw
      subst hw
      refine .inr fun load hload => ?_
      cases hload
      exact hnew
  · refine .inr fun s hs => ?_
    cases hs
    exact comes_last (open_loads l bloc) rfl
  · exact .inl rfl
  · exact .inl rfl
  · exact .inr fun p o s hs => by cases hs

theorem Truthful.load (h : Truthful bloc) (placeList : PlaceList) (visited : Bool) :
    Truthful (bloc.load placeList visited) := by
  unfold SavedPlacesBloc.load
  cases Load.of? placeList visited with
  | some l => exact h.open_ l
  | none =>
    show Truthful { bloc with state := .loading, savedPlaces := [], contributors := [] }
    exact h.mono (List.prefix_refl _) (fun x hx => .inl ⟨x, hx, rfl⟩) (fun w hw => .inl hw)
      (.inl rfl) (.inl rfl) (.inl rfl) (.inr fun p o s hs => by cases hs)

theorem Truthful.finishLoad (h : Truthful bloc) {load : From Load}
    (hload : bloc.Comes load.load fun l => l = load.value) :
    Truthful (bloc.finishLoad load) := by
  unfold SavedPlacesBloc.finishLoad
  split
  · next o s ho hs =>
    refine h.mono (List.prefix_refl _) (fun x hx => .inl ⟨x, hx, rfl⟩) (fun w hw => .inl hw)
      (.inl rfl) (.inl rfl) (.inl rfl) (.inr fun p o' s' hstate => ?_)
    cases hstate
    obtain ⟨l, hl, rfl⟩ := hload
    exact ⟨⟨_, hl, rfl⟩, h.listOwner o ho, h.placeStream s hs⟩
  · exact h

/-! ## Callbacks -/

theorem Truthful.onPlaceList (h : Truthful bloc) {load : From Load}
    (hload : bloc.Comes load.load fun l => l = load.value) (snap : Option Doc) :
    Truthful (bloc.onPlaceList load snap) := by
  unfold SavedPlacesBloc.onPlaceList
  cases hread : PlaceList.fromSnapshot load.value.placeListId snap with
  | error e => exact h
  | ok placeList =>
    refine h.mono (List.prefix_refl _) ?_ (fun w hw => .inl hw) (.inl rfl) (.inl rfl) ?_
      (.inl rfl)
    · intro x hx
      rcases List.mem_append.mp hx with hold | hx
      · exact .inl ⟨x, hold, rfl⟩
      · refine .inr ?_
        have hx' : x.load = load := by
          rcases List.mem_cons.mp hx with rfl | hx
          · rfl
          · obtain ⟨userId, -, rfl⟩ := List.mem_map.mp hx
            rfl
        rw [hx']
        exact hload
    · dsimp only
      by_cases hv : load.value.visited = true
      · simp [hv]
      · refine .inr fun p hp => ?_
        simp only [if_neg hv, Option.mem_some_iff] at hp
        subst hp
        obtain ⟨l, hl, rfl⟩ := hload
        exact ⟨_, hl, (PlaceList.fromSnapshot_ok hread).1⟩

theorem Truthful.onListOwner (h : Truthful bloc) {load : From Load}
    (hload : bloc.Comes load.load fun l => l = load.value) (snap : Option Doc) :
    Truthful (bloc.onListOwner load snap) := by
  unfold SavedPlacesBloc.onListOwner
  cases hread : User.fromSnapshot load.value.placeList.listOwnerId snap with
  | error e => exact h
  | ok user =>
    refine h.mono (List.prefix_refl _) (fun x hx => .inl ⟨x, hx, rfl⟩) (fun w hw => .inl hw)
      (.inl rfl) (.inr fun o ho => ?_) (.inl rfl) (.inl rfl)
    rw [Option.mem_some_iff] at ho
    subst ho
    obtain ⟨l, hl, rfl⟩ := hload
    exact ⟨_, hl, (User.fromSnapshot_ok hread).1⟩

theorem Truthful.onContributor (h : Truthful bloc) (userId : String) (snap : Option Doc) :
    Truthful (bloc.onContributor userId snap) := by
  unfold SavedPlacesBloc.onContributor
  cases User.fromSnapshot userId snap with
  | error e => exact h
  | ok user =>
    exact h.mono (List.prefix_refl _) (fun x hx => .inl ⟨x, hx, rfl⟩) (fun w hw => .inl hw)
      (.inl rfl) (.inl rfl) (.inl rfl) (.inl rfl)

theorem Truthful.onPlaces (h : Truthful bloc) {i : Nat} {load : From Load}
    {shown : Option (List String)} (hi : bloc.listeners[i]? = some (.places load shown))
    (e : PlacesEvent) : Truthful (bloc.onPlaces i load shown e) := by
  unfold SavedPlacesBloc.onPlaces
  refine h.mono (List.prefix_refl _) ?_ (fun w hw => .inl hw) (.inl rfl) (.inl rfl) (.inl rfl)
    (.inl rfl)
  intro x hx
  rcases List.mem_or_eq_of_mem_set hx with hold | rfl
  · exact .inl ⟨x, hold, rfl⟩
  · exact .inl ⟨_, List.mem_of_getElem? hi, rfl⟩

/-- The listener that gets a snapshot, and what its callback does. -/
theorem deliver_cases {i : Nat} {snap : PlacesSnapshot}
    (h : bloc.deliver i snap = some bloc') :
    (∃ load d, bloc.listeners[i]? = some (.placeList load) ∧ snap = .doc d ∧
        bloc' = bloc.onPlaceList load d) ∨
    (∃ load d, bloc.listeners[i]? = some (.listOwner load) ∧ snap = .doc d ∧
        bloc' = bloc.onListOwner load d) ∨
    (∃ load userId d, bloc.listeners[i]? = some (.contributor load userId) ∧ snap = .doc d ∧
        bloc' = bloc.onContributor userId d) ∨
    (∃ load shown docs, bloc.listeners[i]? = some (.places load shown) ∧
        snap = .docs docs ∧
        bloc' = bloc.onPlaces i load shown (.inl (docs.map Prod.fst))) ∨
    ∃ load shown placeId d, bloc.listeners[i]? = some (.places load shown) ∧
      snap = .place placeId d ∧ bloc' = bloc.onPlaces i load shown (.inr (placeId, d)) := by
  unfold SavedPlacesBloc.deliver at h
  split at h
  · next load d hi =>
    cases h
    exact .inl ⟨load, d, hi, rfl, rfl⟩
  · next load d hi =>
    cases h
    exact .inr (.inl ⟨load, d, hi, rfl, rfl⟩)
  · next load userId d hi =>
    cases h
    exact .inr (.inr (.inl ⟨load, userId, d, hi, rfl, rfl⟩))
  · next load shown docs hi =>
    cases h
    exact .inr (.inr (.inr (.inl ⟨load, shown, docs, hi, rfl, rfl⟩)))
  · next load shown placeId d hi =>
    cases h
    exact .inr (.inr (.inr (.inr ⟨load, shown, placeId, d, hi, rfl, rfl⟩)))
  · cases h

theorem Truthful.deliver (h : Truthful bloc) {i : Nat} {snap : PlacesSnapshot}
    (hdeliver : bloc.deliver i snap = some bloc') : Truthful bloc' := by
  rcases deliver_cases hdeliver with ⟨load, d, hi, -, rfl⟩ | ⟨load, d, hi, -, rfl⟩ |
    ⟨load, userId, d, -, -, rfl⟩ | ⟨load, shown, docs, hi, -, rfl⟩ |
    ⟨load, shown, placeId, d, hi, -, rfl⟩
  · exact h.onPlaceList (h.listeners _ (List.mem_of_getElem? hi)) d
  · exact h.onListOwner (h.listeners _ (List.mem_of_getElem? hi)) d
  · exact h.onContributor userId d
  · exact h.onPlaces hi _
  · exact h.onPlaces hi _

/-! ## Events -/

theorem Truthful.erase (h : Truthful bloc) (k : Nat) :
    Truthful { bloc with waiting := bloc.waiting.eraseIdx k } :=
  h.mono (List.prefix_refl _) (fun x hx => .inl ⟨x, hx, rfl⟩)
    (fun _ hw => .inl (List.mem_of_mem_eraseIdx hw)) (.inl rfl) (.inl rfl) (.inl rfl) (.inl rfl)

/-- A state that is not loaded, with any places. -/
theorem Truthful.withState (h : Truthful bloc) {state : SavedPlacesState}
    (hstate : ∀ p o s, state ≠ .loaded p o s) (savedPlaces : List Place) :
    Truthful { bloc with savedPlaces := savedPlaces, state := state } :=
  h.mono (List.prefix_refl _) (fun x hx => .inl ⟨x, hx, rfl⟩) (fun _ hw => .inl hw)
    (.inl rfl) (.inl rfl) (.inl rfl) (.inr fun p o s hs => absurd hs (hstate p o s))

theorem Truthful.delayEdit (h : Truthful bloc) {handler : Delayed}
    (hhandler : ∀ load, handler ≠ .load load) (delay : Nat) :
    Truthful (bloc.delayEdit handler delay) := by
  refine h.mono (List.prefix_refl _) (fun x hx => .inl ⟨x, hx, rfl⟩) ?_ (.inl rfl) (.inl rfl)
    (.inl rfl) (.inr fun p o s hs => by cases hs)
  intro w hw
  rcases List.mem_append.mp hw with hold | hw
  · exact .inl hold
  · rw [List.mem_singleton] at hw
    subst hw
    exact .inr fun load hload => absurd hload (hhandler load)

theorem Truthful.finish (h : Truthful bloc) {handler : Delayed}
    (hhandler : ∀ load, handler = .load load → bloc.Comes load.load fun l => l = load.value)
    (found : Found) : Truthful (bloc.finish handler found) := by
  cases handler with
  | load load => exact h.finishLoad (hhandler load rfl)
  | addPlace placeList =>
    have hupdated : Truthful { bloc with state := .updated } :=
      h.withState (by simp) bloc.savedPlaces
    unfold SavedPlacesBloc.finish
    dsimp only
    by_cases hs : found.snackbar = true
    · rw [if_pos hs]
      exact hupdated.load placeList false
    · rw [if_neg hs]
      exact hupdated
  | removePlace placeList => exact (h.withState (by simp) _).load placeList false

/-- Every event keeps the bloc truthful. -/
theorem Truthful.step (h : Truthful bloc) {e : Event}
    (hstep : SavedPlacesBloc.step bloc e = some bloc') : Truthful bloc' := by
  cases e with
  | load placeList visited =>
    cases hstep
    exact h.load placeList visited
  | addPlace placeList =>
    cases hstep
    exact h.delayEdit (by simp) 500
  | removePlace placeList =>
    cases hstep
    exact h.delayEdit (by simp) 1000
  | updatePlace =>
    simp only [SavedPlacesBloc.step] at hstep
    split at hstep
    · next p o s _ =>
      cases hstep
      exact h.load p.value false
    · cases hstep
      exact h
  | savedListsUpdated =>
    simp only [SavedPlacesBloc.step] at hstep
    split at hstep
    · next p _ =>
      cases hstep
      exact h.load p.value false
    · cases hstep
      exact h
  | deliver i snap => exact h.deliver hstep
  | wait ms =>
    simp only [SavedPlacesBloc.step] at hstep
    split at hstep
    · cases hstep
      exact h.mono (List.prefix_refl _) (fun x hx => .inl ⟨x, hx, rfl⟩)
        (fun _ hw => .inl hw) (.inl rfl) (.inl rfl) (.inl rfl) (.inl rfl)
    · cases hstep
  | finish k found =>
    simp only [SavedPlacesBloc.step] at hstep
    split at hstep
    · next w hw =>
      split at hstep
      · cases hstep
        exact (h.erase k).finish (h.waiting w (List.mem_of_getElem? hw)) found
      · cases hstep
    · cases hstep

/-- The bloc is truthful after every run. -/
theorem truthful_replay {ok : SavedPlacesBloc → Event → Bool} {es : List Event}
    (h : Events.replay SavedPlacesBloc.step ok {} es = some bloc) : Truthful bloc :=
  Events.replay_invariant h truthful_empty fun _ _ _ hb _ hstep => hb.step hstep

end SavedPlacesBloc

end GottaGo
