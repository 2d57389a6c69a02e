/-
GottaGo.Visits.Order — work on the places of a list, in any order.

The five operations on a place of list `l` write documents of that place
only. So each document sees the calls that name its place and no others,
and when these take turns it sees them one whole call after the other.
A run of the calls is then, document by document, the run of one whole
call at a time, in any order that keeps the order of each place's calls
(`place_calls_independent`).
-/
import GottaGo.Async.Turns
import GottaGo.Firestore.Retry
import GottaGo.Visits.Moves

namespace GottaGo

open GottaGo.Async GottaGo.Async.Pool GottaGo.Firestore

/-- The operations on a place of a list. -/
inductive PlaceOp where
  | add
  | remove
  | removeVisited
  | mark
  | restore
  deriving DecidableEq

/-- A call of one of them on a place of list `l` that has an id. -/
structure PlaceCall (l : String) where
  op : PlaceOp
  place : Place
  placeId : String
  hplace : place.placeId = some placeId
  placeList : PlaceList
  hlist : placeList.placeListId = some l

namespace PlaceCall

variable {l : String}

/-- What is called. -/
def task (call : PlaceCall l) : App Unit :=
  match call.op with
  | .add => PlaceListRepository.addPlaceToList call.place call.placeList
  | .remove => PlaceListRepository.removePlaceFromList call.place call.placeList
  | .removeVisited =>
    PlaceListRepository.removePlaceFromVisitedList call.place call.placeList
  | .mark => PlaceListRepository.markPlaceVisited call.place call.placeList
  | .restore => PlaceListRepository.restoreVisitedPlace call.place call.placeList

/-- The writes it makes. -/
def script (call : PlaceCall l) : List (Write Path) :=
  let document := Doc.ofList call.place.toDocument
  match call.op with
  | .add => [.set (.places l call.placeId) document]
  | .remove => [.delete (.places l call.placeId)]
  | .removeVisited => [.delete (.visitedPlaces l call.placeId)]
  | .mark => [.delete (.places l call.placeId),
      .set (.visitedPlaces l call.placeId) document]
  | .restore => [.delete (.visitedPlaces l call.placeId),
      .set (.places l call.placeId) document]

theorem task_eq (call : PlaceCall l) :
    call.task = rethrowing (inOrder call.script) := by
  obtain ⟨op, place, p, hp, placeList, hl⟩ := call
  have hid : PlaceListRepository.movePlace.listId placeList = .ret l := by
    rw [PlaceListRepository.movePlace.listId, hl]
    rfl
  have href : ∀ coll : String → String → Path,
      PlaceListRepository.placeRef coll place placeList = .ret (coll l p) := by
    intro coll
    rw [PlaceListRepository.placeRef, hid, hp]
    rfl
  cases op with
  | add =>
    simp only [task, PlaceListRepository.addPlaceToList, href]
    exact congrArg rethrowing (inOrder_one _)
  | remove =>
    simp only [task, PlaceListRepository.removePlaceFromList, href]
    exact congrArg rethrowing (inOrder_one _)
  | removeVisited =>
    simp only [task, PlaceListRepository.removePlaceFromVisitedList, href]
    exact congrArg rethrowing (inOrder_one _)
  | mark =>
    simp only [task, PlaceListRepository.markPlaceVisited, movePlace_eq hp hl]
    exact congrArg rethrowing (inOrder_two _ _)
  | restore =>
    simp only [task, PlaceListRepository.restoreVisitedPlace, movePlace_eq hp hl]
    exact congrArg rethrowing (inOrder_two _ _)

/-- A call writes documents of its place. -/
theorem path_of_mem_script {call : PlaceCall l} {w : Write Path} (h : w ∈ call.script) :
    ∃ d, w.path = slot d l call.placeId := by
  obtain ⟨op, place, p, hp, placeList, hl⟩ := call
  cases op <;> simp only [script, List.mem_cons, List.not_mem_nil, or_false] at h
  case add => exact ⟨false, by rw [h]; rfl⟩
  case remove => exact ⟨false, by rw [h]; rfl⟩
  case removeVisited => exact ⟨true, by rw [h]; rfl⟩
  case mark =>
    rcases h with rfl | rfl
    · exact ⟨false, rfl⟩
    · exact ⟨true, rfl⟩
  case restore =>
    rcases h with rfl | rfl
    · exact ⟨true, rfl⟩
    · exact ⟨false, rfl⟩

/-- To a document of another place it has nothing to write. -/
theorem writesTo_eq_nil {call : PlaceCall l} {ws : List (Write Path)}
    (hws : ws <:+ call.script) {q : Path} (h : ∀ d, q ≠ slot d l call.placeId) :
    writesTo q ws = [] := by
  rw [writesTo, List.filter_eq_nil_iff]
  intro w hw hq
  obtain ⟨d, hd⟩ := path_of_mem_script (hws.subset hw)
  exact h d (by rw [← hd, of_decide_eq_true hq])

theorem overwrites_of_mem_script {call : PlaceCall l} {w : Write Path}
    (h : w ∈ call.script) : w.Overwrites = true := by
  obtain ⟨op, place, p, hp, placeList, hl⟩ := call
  cases op <;> simp only [script, List.mem_cons, List.not_mem_nil, or_false] at h
  case mark => rcases h with rfl | rfl <;> rfl
  case restore => rcases h with rfl | rfl <;> rfl
  all_goals
    rw [h]
    rfl

end PlaceCall

/-! ## Runs of calls -/

/-- A call in flight: what was called, and what is left of it. -/
abbrev PlaceThread (l : String) := PlaceCall l × App Unit

variable {l : String}

/-- A call starts. -/
def PlaceStart (st st' : AppState) (t : PlaceThread l) : Prop :=
  st' = st ∧ t.2 = t.1.task

/-- A call makes its next write. -/
def PlaceStep (st : AppState) (t : PlaceThread l) (st' : AppState) (t' : PlaceThread l) :
    Prop :=
  t'.1 = t.1 ∧ Prog.Step Served st t.2 st' t'.2

/-- Of two calls on one place, one has ended. -/
def TakeTurns (c : Pool AppState (PlaceThread l)) : Prop :=
  c.threads.Pairwise fun t u => t.1.placeId = u.1.placeId → t.2.Ended ∨ u.2.Ended

instance (c : Pool AppState (PlaceThread l)) : Decidable (TakeTurns c) :=
  inferInstanceAs (Decidable (c.threads.Pairwise _))

/-- The calls of a run, in the order they started. -/
def calls (c : Pool AppState (PlaceThread l)) : List (PlaceCall l) :=
  c.threads.reverse.map Prod.fst

/-- Those on place `p`. -/
def callsOn (p : String) (cs : List (PlaceCall l)) : List (PlaceCall l) :=
  cs.filter fun call => call.placeId = p

/-- A run of calls from `st` that ends with none in flight. -/
def Finished (st : AppState) (c : Pool AppState (PlaceThread l)) : Prop :=
  Reach TakeTurns PlaceStart PlaceStep ⟨st, []⟩ c ∧ ∀ t ∈ c.threads, t.2.Ended

/-- The calls, one whole call after the other. -/
def wholeCalls (st : AppState) (cs : List (PlaceCall l)) : AppState :=
  cs.foldl (fun st call => (Prog.eval (serve {}) call.task st).2) st

/-- Where a call stands: the writes it has left. -/
structure PlacePoint (l : String) where
  call : PlaceCall l
  left : List (Write Path)
  suffix : left <:+ call.script

namespace PlacePoint

def thread (v : PlacePoint l) : PlaceThread l := (v.call, rethrowing (inOrder v.left))

theorem ended_iff (v : PlacePoint l) : v.thread.2.Ended ↔ v.left = [] := by
  obtain ⟨call, left, hs⟩ := v
  cases left with
  | nil => exact iff_of_true trivial rfl
  | cons w ws => exact iff_of_false id (List.cons_ne_nil w ws)

/-- A call starts with all its writes left. -/
def Start (st st' : AppState) (v : PlacePoint l) : Prop :=
  st' = st ∧ v.left = v.call.script

/-- A call makes the first write it has left. -/
def Adv (st : AppState) (v : PlacePoint l) (st' : AppState) (v' : PlacePoint l) : Prop :=
  v'.call = v.call ∧
    ∃ w s₁, v.left = w :: v'.left ∧ w.apply st.store = some s₁ ∧ st' = st.commit w s₁

/-- Of two calls on one place, one has no writes left. -/
def Turns (c : Pool AppState (PlacePoint l)) : Prop :=
  c.threads.Pairwise fun v u => v.call.placeId = u.call.placeId → v.left = [] ∨ u.left = []

/-- The next write is made, or there is none. -/
theorem step {v : PlacePoint l} {st st' : AppState} {t : PlaceThread l}
    (h : PlaceStep st v.thread st' t) :
    ∃ v' : PlacePoint l, t = v'.thread ∧ Adv st v st' v' := by
  obtain ⟨call, left, hs⟩ := v
  obtain ⟨t₁, t₂⟩ := t
  obtain ⟨hcall, hstep⟩ := h
  cases hcall
  cases left with
  | nil => exact hstep.elim
  | cons w ws =>
    obtain ⟨r, hserved, rfl⟩ := hstep
    obtain ⟨s₁, hw, rfl, rfl⟩ := served_write.mp hserved
    exact ⟨⟨call, ws, (List.suffix_cons w ws).trans hs⟩, rfl, rfl, w, s₁, rfl, hw, rfl⟩

end PlacePoint

section Run

open PlacePoint

variable {st : AppState} {c : Pool AppState (PlaceThread l)}

/-- A run of calls is a run of control points. -/
theorem Finished.points (h : Finished st c) :
    ∃ vs : List (PlacePoint l), c.threads = vs.map thread ∧ (∀ v ∈ vs, v.left = []) ∧
      Reach Turns Start Adv ⟨st, []⟩ ⟨c.state, vs⟩ := by
  obtain ⟨hrun, hend⟩ := h
  have hstart : ∀ s s' (t : PlaceThread l), PlaceStart s s' t →
      ∃ v : PlacePoint l, t = v.thread ∧ Start s s' v := by
    intro s s' t ht
    obtain ⟨rfl, htask⟩ := ht
    refine ⟨⟨t.1, t.1.script, List.suffix_refl _⟩, ?_, rfl, rfl⟩
    rw [thread, ← t.1.task_eq, ← htask]
  have hturns : ∀ s (vs : List (PlacePoint l)), TakeTurns ⟨s, vs.map thread⟩ →
      Turns ⟨s, vs⟩ := by
    intro s vs hturns
    refine (List.pairwise_map.mp hturns).imp ?_
    intro v u hvu hp
    simpa only [ended_iff] using hvu hp
  have hrun : Reach TakeTurns PlaceStart PlaceStep
      ⟨st, ([] : List (PlacePoint l)).map thread⟩ c := hrun
  obtain ⟨vs, hvs, hreach⟩ := Reach.refines thread hstart (fun _ _ _ _ => step) hturns hrun
  refine ⟨vs, hvs, fun v hv => (ended_iff v).mp ?_, hreach⟩
  exact hend _ (hvs ▸ List.mem_map_of_mem hv)

theorem writesTo_append (q : Path) (ws vs : List (Write Path)) :
    writesTo q (ws ++ vs) = writesTo q ws ++ writesTo q vs := List.filter_append ..

/-- A document is written to by the calls on one place, in turn. -/
theorem writesTo_log {vs : List (PlacePoint l)} {st' : AppState}
    (h : Reach Turns Start Adv ⟨st, []⟩ ⟨st', vs⟩) (hend : ∀ v ∈ vs, v.left = []) (q : Path) :
    writesTo q st'.log =
      writesTo q st.log ++ vs.reverse.flatMap fun v => writesTo q v.call.script := by
  have hstart : ∀ s s' (v : PlacePoint l), Start s s' v →
      writesTo q s'.log = writesTo q s.log ∧
        writesTo q v.left = writesTo q v.call.script := by
    intro s s' v hv
    obtain ⟨rfl, hleft⟩ := hv
    exact ⟨rfl, by rw [hleft]⟩
  have hadv : ∀ s (v : PlacePoint l) s' v', Adv s v s' v' →
      ¬ v.left = [] ∧
        ((∃ d, q = slot d l v'.call.placeId) ↔ ∃ d, q = slot d l v.call.placeId) ∧
        writesTo q v'.call.script = writesTo q v.call.script ∧
        writesTo q s'.log ++ writesTo q v'.left = writesTo q s.log ++ writesTo q v.left := by
    intro s v s' v' hv
    obtain ⟨hcall, w, s₁, hleft, -, rfl⟩ := hv
    refine ⟨by simp [hleft], by rw [hcall], by rw [hcall], ?_⟩
    rw [hleft, State.commit_log, ← writesTo_append, ← writesTo_append, List.append_assoc,
      List.singleton_append]
  have hother : ∀ v : PlacePoint l, (¬ ∃ d, q = slot d l v.call.placeId) →
      writesTo q v.left = [] := by
    intro v hv
    exact PlaceCall.writesTo_eq_nil v.suffix fun d hd => hv ⟨d, hd⟩
  have hok : ∀ d : Pool AppState (PlacePoint l), Turns d →
      InTurn (fun v => ∃ d, q = slot d l v.call.placeId) (fun v => v.left = []) d := by
    intro d hd
    refine List.Pairwise.imp ?_ hd
    intro v u hvu hv hu
    obtain ⟨e, hv⟩ := hv
    obtain ⟨f, hu⟩ := hu
    exact hvu (slot_inj (hv.symm.trans hu)).2
  have hnil : vs.reverse.flatMap (fun v => writesTo q v.left) = [] := by
    rw [List.flatMap_eq_nil_iff]
    intro v hv
    rw [hend v (List.mem_reverse.mp hv)]
    rfl
  have hturn := Reach.in_turn (fun st : AppState => writesTo q st.log)
    (fun v : PlacePoint l => writesTo q v.left) (fun v => writesTo q v.call.script)
    hstart hadv (fun v hv => by rw [hv]; rfl) hother hok h
  simpa only [hnil, List.append_nil] using hturn

/-- The documents are what the log makes of them. -/
theorem store_of_log {vs : List (PlacePoint l)} {st' : AppState}
    (h : Reach Turns Start Adv ⟨st, []⟩ ⟨st', vs⟩) :
    ∃ ws, st'.log = st.log ++ ws ∧ applyAll st.store ws = some st'.store := by
  refine h.invariant (J := fun c => ∃ ws, c.state.log = st.log ++ ws ∧
    applyAll st.store ws = some c.state.store) ⟨[], (List.append_nil _).symm, rfl⟩ ?_
  intro c c' hc hs _
  cases hs with
  | start ts ht =>
    obtain ⟨rfl, -⟩ := ht
    exact hc
  | adv pre post ht =>
    obtain ⟨ws, hlog, hall⟩ := hc
    obtain ⟨-, w, s₁, -, hw, rfl⟩ := ht
    refine ⟨ws ++ [w], ?_, ?_⟩
    · rw [State.commit_log, hlog, List.append_assoc]
    · rw [applyAll_concat hall, hw]
      rfl

/-- A run ends with the documents that its calls leave when they are made
one whole call after the other, in the order they started. -/
theorem Finished.applyAll (h : Finished st c) :
    applyAll st.store ((calls c).flatMap PlaceCall.script) = some c.state.store := by
  obtain ⟨vs, hvs, hend, hreach⟩ := h.points
  obtain ⟨ws, hlog, hall⟩ := store_of_log hreach
  rw [← hall]
  apply applyAll_congr
  intro q
  have hq := writesTo_log hreach hend q
  have hlog : c.state.log = st.log ++ ws := hlog
  rw [hlog, writesTo_append, List.append_cancel_left_eq] at hq
  rw [hq, writesTo, List.filter_flatMap, calls, hvs, ← List.map_reverse, List.map_map,
    List.flatMap_map]
  rfl

end Run

/-! ## Whole calls -/

/-- One whole call makes its writes. -/
theorem eval_task (st : AppState) (call : PlaceCall l) :
    applyAll st.store call.script = some (Prog.eval (serve {}) call.task st).2.store := by
  obtain ⟨s', hs'⟩ := exists_applyAll (fun w hw => PlaceCall.overwrites_of_mem_script hw)
    st.store
  obtain ⟨s₁, st₁, hs₁, heval, rfl, -⟩ | ⟨hnone, -⟩ :=
    inOrder_cases (fun _ => "") call.script st
  · have hserve : Prog.eval (serve {}) (inOrder call.script) st = (.ok (), st₁) := heval
    rw [call.task_eq, eval_rethrowing_snd, hserve, hs₁]
  · rw [hs'] at hnone
    cases hnone

theorem wholeCalls_store (st : AppState) (cs : List (PlaceCall l)) :
    applyAll st.store (cs.flatMap PlaceCall.script) = some (wholeCalls st cs).store := by
  induction cs generalizing st with
  | nil => rfl
  | cons call cs ih =>
    rw [List.flatMap_cons, applyAll_append, eval_task, Option.bind_some, ih]
    rfl

/-- To a document only the calls on its place matter. -/
theorem writesTo_calls (cs : List (PlaceCall l)) (d : Bool) (p : String) :
    writesTo (slot d l p) (cs.flatMap PlaceCall.script) =
      (callsOn p cs).flatMap fun call => writesTo (slot d l p) call.script := by
  induction cs with
  | nil => rfl
  | cons call cs ih =>
    rw [List.flatMap_cons, writesTo_append, ih]
    by_cases hp : call.placeId = p
    · simp [callsOn, hp]
    · have hnil : writesTo (slot d l p) call.script = [] := by
        apply PlaceCall.writesTo_eq_nil (List.suffix_refl _)
        intro e he
        exact hp (slot_inj he).2.symm
      simp [callsOn, hp, hnil]

/-- To a document of no place of the list none of the calls writes. -/
theorem writesTo_calls_of_ne (cs : List (PlaceCall l)) {q : Path}
    (h : ∀ call ∈ cs, ∀ d, q ≠ slot d l call.placeId) :
    writesTo q (cs.flatMap PlaceCall.script) = [] := by
  rw [writesTo, List.filter_flatMap, List.flatMap_eq_nil_iff]
  intro call hcall
  exact PlaceCall.writesTo_eq_nil (List.suffix_refl _) (h call hcall)

/-- Calls in orders that agree on each place write the same to each
document. -/
theorem writesTo_congr {cs ds : List (PlaceCall l)}
    (h : ∀ p, callsOn p cs = callsOn p ds) (q : Path) :
    writesTo q (cs.flatMap PlaceCall.script) = writesTo q (ds.flatMap PlaceCall.script) := by
  by_cases hq : ∃ d p, q = slot d l p
  · obtain ⟨d, p, rfl⟩ := hq
    rw [writesTo_calls, writesTo_calls, h p]
  · have hne : ∀ cs : List (PlaceCall l), ∀ call ∈ cs, ∀ d, q ≠ slot d l call.placeId :=
      fun cs call _ d he => hq ⟨d, call.placeId, he⟩
    rw [writesTo_calls_of_ne cs (hne cs), writesTo_calls_of_ne ds (hne ds)]

/-- Work on different places is independent: a run of calls that take
turns on each place ends as every other such run with the same calls on
each place, as its calls made one whole call at a time in any order that
keeps the order of each place, and with the documents of all other places
as they were. -/
theorem place_calls_independent {st : AppState} {c : Pool AppState (PlaceThread l)}
    (h : Finished st c) :
    (∀ c' : Pool AppState (PlaceThread l), Finished st c' →
        (∀ p, callsOn p (calls c') = callsOn p (calls c)) →
        c'.state.store = c.state.store) ∧
      (∀ cs : List (PlaceCall l), (∀ p, callsOn p cs = callsOn p (calls c)) →
        (wholeCalls st cs).store = c.state.store) ∧
      ∀ q, (∀ call ∈ calls c, ∀ d, q ≠ slot d l call.placeId) →
        c.state.store.get q = st.store.get q := by
  have hall := h.applyAll
  refine ⟨?_, ?_, ?_⟩
  · intro c' h' horder
    have hall' := h'.applyAll
    rw [applyAll_congr (writesTo_congr horder), hall] at hall'
    exact (Option.some.inj hall').symm
  · intro cs horder
    have hwhole := wholeCalls_store st cs
    rw [applyAll_congr (writesTo_congr horder), hall] at hwhole
    exact (Option.some.inj hwhole).symm
  · intro q hq
    have hget := applyAll_eq_some_iff.mp hall q
    rw [writesTo_calls_of_ne _ hq] at hget
    exact (Option.some.inj hget).symm

/-! ## Two places at once -/

def addPantheon : PlaceCall "rome" where
  op := .add
  place := { placeId := some "p2", name := some "Pantheon" }
  placeId := "p2"
  hplace := rfl
  placeList := rome
  hlist := rfl

def markColosseum : PlaceCall "rome" where
  op := .mark
  place := colosseum
  placeId := "p1"
  hplace := rfl
  placeList := rome
  hlist := rfl

/-- The next write of a call in flight. -/
def nextPlace (o : Outcome) (st : AppState) (t : PlaceThread l) :
    Option (AppState × PlaceThread l) :=
  (nextServed o st t.2).map fun r => (r.1, (t.1, r.2))

theorem step_of_nextPlace (o : Outcome) (st : AppState) (t : PlaceThread l)
    (st' : AppState) (t' : PlaceThread l) (h : nextPlace o st t = some (st', t')) :
    PlaceStep st t st' t' := by
  obtain ⟨r, hr, heq⟩ := Option.map_eq_some_iff.mp h
  cases heq
  exact ⟨rfl, step_of_nextServed o st t.2 r.1 r.2 hr⟩

/-- Both calls have started. -/
def bothStarted : Pool AppState (PlaceThread "rome") where
  state := { store := onePlace colosseum "rome" "p1" }
  threads := [(markColosseum, markColosseum.task), (addPantheon, addPantheon.task)]

/-- The Pantheon is added between the two writes that mark the
Colosseum. -/
def bothEnded : Pool AppState (PlaceThread "rome") :=
  (Pool.play nextPlace (fun d => decide (TakeTurns d)) bothStarted
    [(0, {}), (1, {}), (0, {})]).get (by decide)

theorem bothEnded_finished : Finished bothStarted.state bothEnded := by
  have hstarted : Reach TakeTurns PlaceStart PlaceStep ⟨bothStarted.state, []⟩ bothStarted := by
    refine Reach.startAll ?_ (by decide)
    intro t ht
    simp only [List.mem_cons, List.not_mem_nil, or_false] at ht
    rcases ht with rfl | rfl <;> exact ⟨rfl, rfl⟩
  have hplay : Reach TakeTurns PlaceStart PlaceStep bothStarted bothEnded :=
    Reach.play step_of_nextPlace (fun _ hd => of_decide_eq_true hd) (Option.some_get _).symm
  exact ⟨Relation.ReflTransGen.trans hstarted hplay, by decide⟩

theorem place_calls_overlapping :
    calls bothEnded = [addPantheon, markColosseum] ∧
      (wholeCalls bothStarted.state [markColosseum, addPantheon]).store =
        bothEnded.state.store ∧
      (bothEnded.state.store.get (.visitedPlaces "rome" "p1")).isSome ∧
      (bothEnded.state.store.get (.places "rome" "p2")).isSome := by
  have hcalls : calls bothEnded = [addPantheon, markColosseum] := rfl
  refine ⟨hcalls, ?_, by decide, by decide⟩
  refine (place_calls_independent bothEnded_finished).2.1 _ fun p => ?_
  rw [hcalls]
  simp only [callsOn, List.filter_cons, List.filter_nil, markColosseum, addPantheon]
  by_cases h₁ : "p1" = p
  · subst h₁
    rfl
  · simp [h₁]

end GottaGo
