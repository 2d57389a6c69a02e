/-
GottaGo.Places.Snapshots — the snapshots on their way are those of the
database.

`Sound` and `Current` hold after every run of the screen, whatever is
written, requested and delivered. Every event is a step of one shape
(`Current.step_of`): what is kept of the feed is as it was for the
listeners that stay open, and something is issued to every other one.
-/
import GottaGo.Places.Screen

namespace GottaGo

open GottaGo.Async GottaGo.Firestore GottaGo.Rx GottaGo.PlaceListRepository

/-! ## What is issued -/

@[simp] theorem placeId?_read (docs : Docs) (x : PlacesListener) (o : Option String) :
    (x.read docs o).placeId? = o := by
  cases o <;> cases x <;> rfl

theorem distinct_read (docs : Docs) (x : PlacesListener) (o : Option String) :
    (x.read docs o).Distinct := by
  cases o with
  | none =>
    cases x with
    | places load shown => exact load.value.collection_nodup docs
    | _ => trivial
  | some placeId => cases x <;> trivial

variable {docs docs' : Docs} {xs ys : List PlacesListener} {qs : List Sub} {q : Sub}

theorem mem_issue {e : Sub × PlacesSnapshot} :
    e ∈ issue docs xs qs ↔ e.1 ∈ qs ∧ ∃ x, xs[e.1.1]? = some x ∧ e.2 = x.read docs e.1.2 := by
  simp only [issue, List.mem_filterMap, Option.map_eq_some_iff]
  constructor
  · intro h
    obtain ⟨q, hq, x, hx, rfl⟩ := h
    exact ⟨hq, x, hx, rfl⟩
  · intro h
    obtain ⟨hq, x, hx, hread⟩ := h
    exact ⟨e.1, hq, x, hx, by rw [← hread]⟩

theorem yielded_issue {x : PlacesListener} (hq : q ∈ qs) (hx : xs[q.1]? = some x) :
    yielded q (issue docs xs qs) = some (x.read docs q.2) := by
  apply yielded_of_forall (mem_issue.mpr ⟨hq, x, hx, rfl⟩)
  intro s hs
  obtain ⟨-, y, hy, hread⟩ := mem_issue.mp hs
  rw [hx] at hy
  cases hy
  exact hread

theorem yielded_issue_of_notMem (hq : q ∉ qs) : yielded q (issue docs xs qs) = none := by
  apply yielded_eq_none
  intro e he hqe
  exact hq (hqe ▸ (mem_issue.mp he).1)

/-- Listeners that stay where they are stay open. -/
theorem openSubs_append (xs ys : List PlacesListener) (hq : q ∈ openSubs xs) :
    q ∈ openSubs (xs ++ ys) := by
  obtain ⟨x, hx, hbelow⟩ := mem_openSubs.mp hq
  have hlt : q.1 < xs.length := (List.getElem?_eq_some_iff.mp hx).1
  exact mem_openSubs.mpr ⟨x, by rw [List.getElem?_append_left hlt, hx], hbelow⟩

namespace Screen

variable {s s' : Screen}

/-! ## The invariants -/

/-- A step keeps what is on its way sound if it keeps only what goes to
listeners that stay open. -/
theorem Sound.step_of (h : Sound s) (kept : List (Sub × PlacesSnapshot))
    (hfeed : s'.feed = kept ++ issue s'.docs s'.bloc.listeners qs)
    (hqs : ∀ q ∈ qs, q ∈ openSubs s'.bloc.listeners)
    (hkept : ∀ e ∈ kept, e ∈ s.feed ∧
      (e.1 ∈ openSubs s.bloc.listeners → e.1 ∈ openSubs s'.bloc.listeners)) :
    Sound s' := by
  intro e he
  rw [hfeed, List.mem_append] at he
  rcases he with he | he
  · obtain ⟨hold, hopen⟩ := hkept e he
    exact ⟨hopen (h e hold).1, (h e hold).2⟩
  · obtain ⟨hq, x, hx, hread⟩ := mem_issue.mp he
    rw [hread]
    exact ⟨hqs _ hq, placeId?_read _ _ _, distinct_read _ _ _⟩

/-- A step keeps what was issued last current if every listener that is
open then is issued something, or has been due the same before and the
step keeps it. -/
theorem Current.step_of (h : Current s) (kept : List (Sub × PlacesSnapshot))
    (hfeed : s'.feed = kept ++ issue s'.docs s'.bloc.listeners qs)
    (hkept : ∀ q ∈ openSubs s'.bloc.listeners, ∀ x, s'.bloc.listeners[q.1]? = some x →
      q ∈ qs ∨ (q ∈ openSubs s.bloc.listeners ∧
        (∃ y, s.bloc.listeners[q.1]? = some y ∧ y.read s.docs q.2 = x.read s'.docs q.2) ∧
        yielded q (s'.log ++ kept) = yielded q (s.log ++ s.feed))) : Current s' := by
  intro q hq x hx
  rw [hfeed, ← List.append_assoc, yielded_append]
  by_cases hmem : q ∈ qs
  · rw [yielded_issue hmem hx]
    rfl
  · obtain ⟨hopen, ⟨y, hy, hread⟩, hyield⟩ := (hkept q hq x hx).resolve_left hmem
    rw [yielded_issue_of_notMem hmem, Option.none_or, hyield, h q hopen y hy, hread]

/-! ## What an event does to the listeners -/

theorem load_listeners (bloc : SavedPlacesBloc) (placeList : PlaceList) (visited : Bool) :
    bloc.listeners <+: (bloc.load placeList visited).listeners := by
  unfold SavedPlacesBloc.load
  cases Load.of? placeList visited with
  | some l => exact List.prefix_append _ _
  | none => exact List.prefix_refl _

theorem finish_listeners (bloc : SavedPlacesBloc) (handler : Delayed)
    (found : SavedPlacesBloc.Found) :
    bloc.listeners <+: (bloc.finish handler found).listeners := by
  unfold SavedPlacesBloc.finish
  cases handler with
  | load load =>
    dsimp only
    unfold SavedPlacesBloc.finishLoad
    split <;> exact List.prefix_refl _
  | addPlace placeList =>
    dsimp only
    split
    · exact load_listeners { bloc with state := .updated } placeList false
    · exact List.prefix_refl _
  | removePlace placeList =>
    exact load_listeners { bloc with
      savedPlaces := _
      state := .updated } placeList false

/-- Nothing but a snapshot changes the listeners that are there. -/
theorem step_listeners {bloc bloc' : SavedPlacesBloc} {e : SavedPlacesBloc.Event}
    (he : ∀ i snap, e ≠ .deliver i snap) (h : bloc.step e = some bloc') :
    bloc.listeners <+: bloc'.listeners := by
  cases e with
  | load placeList visited =>
    cases h
    exact load_listeners bloc placeList visited
  | addPlace placeList =>
    cases h
    exact List.prefix_refl _
  | removePlace placeList =>
    cases h
    exact List.prefix_refl _
  | updatePlace =>
    simp only [SavedPlacesBloc.step] at h
    split at h
    · cases h
      exact load_listeners bloc _ false
    · cases h
      exact List.prefix_refl _
  | savedListsUpdated =>
    simp only [SavedPlacesBloc.step] at h
    split at h
    · cases h
      exact load_listeners bloc _ false
    · cases h
      exact List.prefix_refl _
  | deliver i snap => exact absurd rfl (he i snap)
  | wait ms =>
    simp only [SavedPlacesBloc.step] at h
    split at h
    · cases h
      exact List.prefix_refl _
    · cases h
  | finish k found =>
    simp only [SavedPlacesBloc.step] at h
    split at h
    · split at h
      · cases h
        exact finish_listeners { bloc with waiting := bloc.waiting.eraseIdx k } _ found
      · cases h
    · cases h

/-- A snapshot of one of the merged documents leaves the stream. -/
theorem getPlaces_next_place (shown : Option (List String)) (placeId : String)
    (d : Option Doc) : getPlaces.next shown (.inr (placeId, d)) = shown := by
  cases shown <;> rfl

/-- What a snapshot does to the listeners: that of a list opens new ones,
that of a subcollection starts its own listeners anew. -/
theorem deliver_listeners {bloc bloc' : SavedPlacesBloc} {i : Nat} {snap : PlacesSnapshot}
    (h : bloc.deliver i snap = some bloc') :
    ((∀ q, closes i snap q = false) ∧ bloc.listeners <+: bloc'.listeners) ∨
      ∃ load shown docs, bloc.listeners[i]? = some (.places load shown) ∧
        snap = .docs docs ∧
        bloc'.listeners = bloc.listeners.set i (.places load (some (docs.map Prod.fst))) := by
  rcases SavedPlacesBloc.deliver_cases h with ⟨load, d, -, rfl, rfl⟩ |
    ⟨load, d, -, rfl, rfl⟩ | ⟨load, userId, d, -, rfl, rfl⟩ |
    ⟨load, shown, docs, hi, rfl, rfl⟩ | ⟨load, shown, placeId, d, hi, rfl, rfl⟩
  · refine .inl ⟨fun _ => rfl, ?_⟩
    unfold SavedPlacesBloc.onPlaceList
    split
    · exact List.prefix_append _ _
    · exact List.prefix_refl _
  · refine .inl ⟨fun _ => rfl, ?_⟩
    unfold SavedPlacesBloc.onListOwner
    split <;> exact List.prefix_refl _
  · refine .inl ⟨fun _ => rfl, ?_⟩
    unfold SavedPlacesBloc.onContributor
    split <;> exact List.prefix_refl _
  · exact .inr ⟨load, shown, docs, hi, rfl, rfl⟩
  · refine .inl ⟨fun _ => rfl, ?_⟩
    have hsame : (bloc.onPlaces i load shown (.inr (placeId, d))).listeners =
        bloc.listeners := by
      obtain ⟨hlt, hget⟩ := List.getElem?_eq_some_iff.mp hi
      show bloc.listeners.set i (.places load (getPlaces.next shown _)) = bloc.listeners
      rw [getPlaces_next_place, ← hget, List.set_getElem_self]
    rw [hsame]

/-! ## Every event keeps them -/

variable {kept : List (Sub × PlacesSnapshot)}

theorem mem_openSubs_prefix (h : xs <+: ys) (hq : q ∈ openSubs xs) : q ∈ openSubs ys := by
  obtain ⟨zs, rfl⟩ := h
  exact openSubs_append xs zs hq

/-- Of more listeners, the first ones are as they were. -/
theorem getElem?_prefix (h : xs <+: ys) {i : Nat} (hi : i < xs.length) :
    ys[i]? = xs[i]? := by
  obtain ⟨zs, rfl⟩ := h
  exact List.getElem?_append_left hi

theorem mem_openSubs_of_lt (h : xs <+: ys) (hq : q ∈ openSubs ys) (hlt : q.1 < xs.length) :
    q ∈ openSubs xs := by
  obtain ⟨y, hy, hbelow⟩ := mem_openSubs.mp hq
  exact mem_openSubs.mpr ⟨y, by rw [← getElem?_prefix h hlt, hy], hbelow⟩

/-- A step that only opens listeners. -/
theorem current_advance (hsound : Sound s) (hcurrent : Current s) {bloc : SavedPlacesBloc}
    (h : s.bloc.listeners <+: bloc.listeners) {log : List (Sub × PlacesSnapshot)}
    (hkept : ∀ e ∈ kept, e ∈ s.feed)
    (hyield : ∀ q, yielded q (log ++ kept) = yielded q (s.log ++ s.feed)) :
    Sound ({ s with log := log }.advance bloc kept fun _ => false) ∧
      Current ({ s with log := log }.advance bloc kept fun _ => false) := by
  constructor
  · apply hsound.step_of kept rfl
    · intro q hq
      exact (List.mem_filter.mp hq).1
    · intro e he
      exact ⟨hkept e he, mem_openSubs_prefix h⟩
  · apply hcurrent.step_of kept rfl
    intro q hq x hx
    by_cases hlt : q.1 < s.bloc.listeners.length
    · refine .inr ⟨mem_openSubs_of_lt h hq hlt, ⟨x, ?_, rfl⟩, hyield q⟩
      rw [← getElem?_prefix h hlt]
      exact hx
    · refine .inl (List.mem_filter.mpr ⟨hq, ?_⟩)
      simp only [Bool.or_false, decide_eq_true_eq]
      exact Nat.le_of_not_lt hlt

/-- A step that starts the listeners below `i` anew. -/
theorem current_restart (hsound : Sound s) (hcurrent : Current s) {bloc : SavedPlacesBloc}
    {i : Nat} {load : From Load} {shown shown' : Option (List String)}
    {docs : List (String × Doc)} {rest log : List (Sub × PlacesSnapshot)}
    (hi : s.bloc.listeners[i]? = some (.places load shown))
    (hbloc : bloc.listeners = s.bloc.listeners.set i (.places load shown'))
    (hrest : ∀ e ∈ rest, e ∈ s.feed)
    (hyield : ∀ q, yielded q (log ++ rest) = yielded q (s.log ++ s.feed)) :
    Sound ({ s with log := log }.advance bloc
        (rest.filter fun e => !closes i (.docs docs) e.1) (closes i (.docs docs))) ∧
      Current ({ s with log := log }.advance bloc
        (rest.filter fun e => !closes i (.docs docs) e.1) (closes i (.docs docs))) := by
  have hlt : i < s.bloc.listeners.length := (List.getElem?_eq_some_iff.mp hi).1
  have hself : bloc.listeners[i]? = some (.places load shown') := by
    rw [hbloc, List.getElem?_set_self hlt]
  have hother : ∀ j, j ≠ i → bloc.listeners[j]? = s.bloc.listeners[j]? := by
    intro j hj
    rw [hbloc, List.getElem?_set_ne (Ne.symm hj)]
  have hcloses : ∀ q : Sub, closes i (.docs docs) q = true ↔ q.1 = i ∧ q.2 ≠ none := by
    intro q
    simp [closes, Option.isSome_iff_ne_none]
  -- a listener that is not closed is open before just when it is open after
  have hopen : ∀ q : Sub, closes i (.docs docs) q = false →
      (q ∈ openSubs bloc.listeners ↔ q ∈ openSubs s.bloc.listeners) := by
    intro q hq
    by_cases hqi : q.1 = i
    · have hnone : q.2 = none := by
        by_contra hne
        exact Bool.false_ne_true (hq.symm.trans ((hcloses q).mpr ⟨hqi, hne⟩))
      simp [mem_openSubs, hqi, hself, hi, hnone]
    · rw [mem_openSubs, mem_openSubs, hother _ hqi]
  constructor
  · apply hsound.step_of (rest.filter fun e => !closes i (.docs docs) e.1) rfl
    · intro q hq
      exact (List.mem_filter.mp hq).1
    · intro e he
      obtain ⟨he, hkeep⟩ := List.mem_filter.mp he
      rw [Bool.not_eq_true'] at hkeep
      exact ⟨hrest e he, (hopen e.1 hkeep).mpr⟩
  · apply hcurrent.step_of (rest.filter fun e => !closes i (.docs docs) e.1) rfl
    intro q hq x hx
    cases hclosed : closes i (.docs docs) q with
    | true => exact .inl (List.mem_filter.mpr ⟨hq, by simp [hclosed]⟩)
    | false =>
      refine .inr ⟨(hopen q hclosed).mp hq, ?_, ?_⟩
      · by_cases hqi : q.1 = i
        · have hnone : q.2 = none := by
            by_contra hne
            exact Bool.false_ne_true (hclosed.symm.trans ((hcloses q).mpr ⟨hqi, hne⟩))
          have hx' : x = .places load shown' := by
            have hget : bloc.listeners[q.1]? = some x := hx
            rw [hqi, hself] at hget
            exact (Option.some.inj hget).symm
          refine ⟨.places load shown, by rw [hqi, hi], ?_⟩
          rw [hx', hnone]
          rfl
        · refine ⟨x, ?_, rfl⟩
          rw [← hother _ hqi]
          exact hx
      · rw [← hyield q]
        show yielded q (log ++ rest.filter _) = _
        rw [yielded_append, yielded_append, yielded_filter]
        intro e _ heq
        rw [heq, hclosed]
        rfl

/-- A change of the documents. -/
theorem current_change (hsound : Sound s) (hcurrent : Current s) (docs' : Docs) :
    Sound (s.change docs') ∧ Current (s.change docs') := by
  constructor
  · apply hsound.step_of s.feed rfl
    · intro q hq
      exact (List.mem_filter.mp hq).1
    · intro e he
      exact ⟨he, id⟩
  · apply hcurrent.step_of s.feed rfl
    intro q hq x hx
    have hx' : s.bloc.listeners[q.1]? = some x := hx
    by_cases hread : x.read docs' q.2 = x.read s.docs q.2
    · exact .inr ⟨hq, ⟨x, hx', hread.symm⟩, rfl⟩
    · exact .inl (List.mem_filter.mpr ⟨hq, by simp [hx', hread]⟩)

theorem current_deliver (hsound : Sound s) (hcurrent : Current s)
    (h : s.deliver q = some s') : Sound s' ∧ Current s' := by
  unfold deliver at h
  split at h
  · next snap rest htake =>
    obtain ⟨bloc, hbloc, rfl⟩ := Option.map_eq_some_iff.mp h
    have hrest := (take?_mem htake).2
    have hyield := fun q' => yielded_take? htake q' s.log
    rcases deliver_listeners hbloc with ⟨hcloses, hprefix⟩ |
      ⟨load, shown, docs, hi, rfl, hset⟩
    · have hnone : closes q.1 snap = fun _ => false := funext hcloses
      have hall : (rest.filter fun e => !closes q.1 snap e.1) = rest := by
        simp [hcloses]
      rw [hall, hnone]
      exact current_advance hsound hcurrent hprefix hrest hyield
    · exact current_restart hsound hcurrent hi hset hrest hyield
  · cases h

theorem current_inBloc (hsound : Sound s) (hcurrent : Current s) {e : SavedPlacesBloc.Event}
    (he : ∀ i snap, e ≠ .deliver i snap) (h : s.inBloc e = some s') :
    Sound s' ∧ Current s' := by
  obtain ⟨bloc, hbloc, rfl⟩ := Option.map_eq_some_iff.mp h
  exact current_advance hsound hcurrent (step_listeners he hbloc) (fun _ he => he)
    fun _ => rfl

theorem current_step (hsound : Sound s) (hcurrent : Current s) {e : Happening}
    (h : step s e = some s') : Sound s' ∧ Current s' := by
  cases e with
  | put p d =>
    cases h
    exact current_change hsound hcurrent _
  | del p =>
    cases h
    exact current_change hsound hcurrent _
  | load placeList visited => exact current_inBloc hsound hcurrent (by simp) h
  | deliver q => exact current_deliver hsound hcurrent h
  | wait ms => exact current_inBloc hsound hcurrent (by simp) h
  | finish k => exact current_inBloc hsound hcurrent (by simp) h

theorem current_empty (docs : Docs) :
    Sound { docs := docs } ∧ Current { docs := docs } :=
  ⟨by simp [Sound], by simp [Current, openSubs]⟩

/-- After every run, the last snapshot issued to a listener is of what it
listens to now. -/
theorem current_replay {ok : Screen → Happening → Bool} {docs : Docs} {es : List Happening}
    (h : Events.replay step ok { docs := docs } es = some s) : Sound s ∧ Current s := by
  apply Events.replay_invariant (J := fun s => Sound s ∧ Current s) h (current_empty docs)
  intro s e s' hs _ hstep
  exact current_step hs.1 hs.2 hstep

end Screen

end GottaGo
