/-
GottaGo.Async.Submission — blocs whose state says whether a call is in
flight.

Each handler of such a bloc makes one call at most. `OneCall` is a handler
that awaits its call and ends with the answer: a value makes the state idle,
an exception leaves it as it is. What a handler does up to there is one of
four things (`Kind`): it is over at once and leaves the state idle; it makes
the state busy and its call, unless the state is busy already; it does so in
any case; it makes its call without touching the state.

Is the state busy just when a call is in flight? `keepsBusy` is the promise
of a run under which it is, and it is exact (`busy_iff_inFlight`).
-/
import GottaGo.Async.Bloc

namespace GottaGo.Async

variable {S C Ev : Type} {R : C → Type} {E : Type}

namespace Handler

/-- The handler awaits a call, and ends with the answer. -/
def OneCall (busy : S → Prop) : Handler S C R E Unit → Prop
  | .ask (.call c) k =>
    (∀ (a : R c) (b : Bloc S C),
      (settle (k (.ok a)) b).2.Ended ∧ ¬ busy (settle (k (.ok a)) b).1.state) ∧
      ∀ (e : E) (b : Bloc S C), (settle (k (.error e)) b).2.Ended ∧
        (settle (k (.error e)) b).1.state = b.state
  | _ => False

theorem OneCall.not_ended {busy : S → Prop} {t : Handler S C R E Unit} (h : t.OneCall busy) :
    ¬ t.Ended := by
  cases t with
  | ret a => exact h.elim
  | raise e => exact h.elim
  | ask q k => exact id

/-- Whether the call that is awaited returns. -/
def returns? (r : (c : C) → Except E (R c)) : Handler S C R E Unit → Bool
  | .ask (.call c) _ => (r c).isOk
  | _ => false

/-- A handler that awaits its call is over with the answer. -/
theorem OneCall.answer {busy : S → Prop} {t t' : Handler S C R E Unit} (h : t.OneCall busy)
    {r : (c : C) → Except E (R c)} (ht : t.answer? r = some t') (b : Bloc S C) :
    (t'.settle b).2.Ended ∧
      (if t.returns? r then ¬ busy (t'.settle b).1.state
        else (t'.settle b).1.state = b.state) := by
  cases t with
  | ret a => exact h.elim
  | raise e => exact h.elim
  | ask q k =>
    cases q with
    | call c =>
      cases ht
      cases hr : r c with
      | ok a =>
        obtain ⟨hend, hidle⟩ := h.1 a b
        exact ⟨hend, by simpa [returns?, hr, Except.isOk, Except.toBool] using hidle⟩
      | error e =>
        obtain ⟨hend, hsame⟩ := h.2 e b
        exact ⟨hend, by simpa [returns?, hr, Except.isOk, Except.toBool] using hsame⟩
    | _ => exact h.elim

/-- What a handler does before it awaits its call. -/
inductive Kind where
  | edit
  | guarded
  | unguarded
  | silent
  deriving DecidableEq, Repr

/-- The handler does so. -/
def Starts (busy : S → Prop) (kind : Kind) (t : Handler S C R E Unit) : Prop :=
  ∀ b : Bloc S C,
    match kind with
    | .edit => (t.settle b).2.Ended ∧ ¬ busy (t.settle b).1.state
    | .guarded =>
      (busy b.state → (t.settle b).2.Ended ∧ (t.settle b).1.state = b.state) ∧
        (¬ busy b.state → (t.settle b).2.OneCall busy ∧ busy (t.settle b).1.state)
    | .unguarded => (t.settle b).2.OneCall busy ∧ busy (t.settle b).1.state
    | .silent => (t.settle b).2.OneCall busy ∧ (t.settle b).1.state = b.state

end Handler

namespace Running

open Handler

/-- How many calls are in flight. -/
def inFlight (b : Running S C Ev R E) : Nat := b.handlers.countP fun x => !decide x.2.Ended

/-- Every handler that has not ended awaits its one call. -/
def OneCalls (busy : S → Prop) (b : Running S C Ev R E) : Prop :=
  ∀ x ∈ b.handlers, x.2.Ended ∨ x.2.OneCall busy

/-- The promise of a run. Nothing is edited while a call is in flight; a
call that leaves the state as it is starts only next to another; a call
that returns is the only one, and one that throws is not. -/
def keepsBusy (kind : Ev → Kind) (b : Running S C Ev R E) : Move Ev C R E → Bool
  | .add event =>
    match kind event with
    | .edit => b.inFlight = 0
    | .silent => 0 < b.inFlight
    | _ => true
  | .answer i r =>
    match b.handlers[i]? with
    | some x => if x.2.returns? r then b.inFlight = 1 else 2 ≤ b.inFlight
    | none => true

theorem inFlight_add {handler : Ev → Handler S C R E Unit} {event : Ev}
    (b : Running S C Ev R E) :
    (b.add handler event).inFlight =
      b.inFlight + if ((handler event).settle b.bloc).2.Ended then 0 else 1 := by
  simp [inFlight, add, run, List.countP_append, List.countP_singleton]

variable {busy : S → Prop} {kind : Ev → Kind} {handler : Ev → Handler S C R E Unit}

theorem OneCalls.add {b : Running S C Ev R E} (hb : b.OneCalls busy) {event : Ev}
    (h : ((handler event).settle b.bloc).2.Ended ∨
      ((handler event).settle b.bloc).2.OneCall busy) :
    (b.add handler event).OneCalls busy := by
  intro x hx
  simp only [Running.add, run, List.mem_append, List.mem_singleton] at hx
  rcases hx with hx | rfl
  · exact hb x hx
  · exact h

/-- A step keeps the busy states apart just when it keeps the promise. -/
theorem busy_step (hstarts : ∀ event, (handler event).Starts busy (kind event))
    {b b' : Running S C Ev R E} {m : Move Ev C R E} (hb : b.OneCalls busy)
    (hbusy : busy b.bloc.state ↔ 0 < b.inFlight) (h : b.step handler m = some b') :
    b'.OneCalls busy ∧
      ((busy b'.bloc.state ↔ 0 < b'.inFlight) ↔ b.keepsBusy kind m = true) := by
  cases m with
  | add event =>
    cases h
    have hstart := hstarts event b.bloc
    have hstate : (b.add handler event).bloc.state =
      ((handler event).settle b.bloc).1.state := rfl
    rw [hstate, inFlight_add, keepsBusy]
    cases hk : kind event with
    | edit =>
      rw [hk] at hstart
      obtain ⟨hend, hidle⟩ := hstart
      refine ⟨hb.add (.inl hend), ?_⟩
      simp [hend, hidle]
    | guarded =>
      rw [hk] at hstart
      obtain ⟨hguard, hgo⟩ := hstart
      by_cases hbs : busy b.bloc.state
      · obtain ⟨hend, hsame⟩ := hguard hbs
        exact ⟨hb.add (.inl hend), by simpa [hend, hsame] using hbusy⟩
      · obtain ⟨hcall, hbusy'⟩ := hgo hbs
        exact ⟨hb.add (.inr hcall), by simp [hcall.not_ended, hbusy']⟩
    | unguarded =>
      rw [hk] at hstart
      obtain ⟨hcall, hbusy'⟩ := hstart
      exact ⟨hb.add (.inr hcall), by simp [hcall.not_ended, hbusy']⟩
    | silent =>
      rw [hk] at hstart
      obtain ⟨hcall, hsame⟩ := hstart
      exact ⟨hb.add (.inr hcall), by simp [hcall.not_ended, hsame, hbusy]⟩
  | answer i r =>
    simp only [step, answer] at h
    split at h
    · next event t hi =>
      obtain ⟨t', ht', rfl⟩ := Option.map_eq_some_iff.mp h
      obtain ⟨hlt, hget⟩ := List.getElem?_eq_some_iff.mp hi
      have hcall : t.OneCall busy := by
        rcases hb _ (List.mem_of_getElem? hi) with hend | hcall
        · cases t <;> simp [Handler.answer?, Prog.Ended] at ht' hend
        · exact hcall
      obtain ⟨hend, hstate⟩ := hcall.answer ht' b.bloc
      have hcount : (b.run i event t' (b.handlers.set i)).inFlight + 1 = b.inFlight := by
        have hpos : 0 < b.inFlight :=
          List.countP_pos_iff.mpr ⟨_, List.mem_of_getElem? hi, by simp [hcall.not_ended]⟩
        have hset : (b.run i event t' (b.handlers.set i)).inFlight = b.inFlight - 1 := by
          simp [inFlight, run, List.countP_set, hlt, hget, hcall.not_ended, hend]
        omega
      refine ⟨?_, ?_⟩
      · intro x hx
        rcases List.mem_or_eq_of_mem_set hx with hx | rfl
        · exact hb x hx
        · exact .inl hend
      · have hrun : (b.run i event t' (b.handlers.set i)).bloc.state =
          (t'.settle b.bloc).1.state := rfl
        simp only [keepsBusy, hi]
        rw [hrun]
        by_cases hret : t.returns? r = true
        · rw [if_pos hret] at hstate ⊢
          simp only [hstate, false_iff, decide_eq_true_eq]
          omega
        · rw [if_neg hret] at hstate ⊢
          rw [hstate, hbusy, decide_eq_true_eq]
          omega
    · cases h

/-- The state is busy just when a call is in flight, all along a run, just
when the run keeps the promise. -/
theorem busy_iff_inFlight (hstarts : ∀ event, (handler event).Starts busy (kind event))
    {s : S} (hs : ¬ busy s) {ms : List (Move Ev C R E)}
    (h : (Events.replay (step handler) Events.free ⟨{ state := s }, [], 0⟩ ms).isSome) :
    (∀ k b, Events.replay (step handler) Events.free ⟨{ state := s }, [], 0⟩ (ms.take k) =
        some b → (busy b.bloc.state ↔ 0 < b.inFlight)) ↔
      (Events.replay (step handler) (keepsBusy kind) ⟨{ state := s }, [], 0⟩ ms).isSome := by
  refine Events.replay_promise_iff (J := OneCalls busy) ?_ ?_ ?_ h
  · intro x hx
    cases hx
  · simpa [inFlight] using hs
  · intro b m b' hb hbusy hstep
    exact busy_step hstarts hb hbusy hstep

/-- While the state tells whether a call is in flight, a guarded handler
makes its call just when none is. -/
theorem guarded_starts_iff {b : Running S C Ev R E} {event : Ev}
    (hstarts : (handler event).Starts busy .guarded)
    (hbusy : busy b.bloc.state ↔ 0 < b.inFlight) :
    (b.add handler event).inFlight = b.inFlight + 1 ↔ b.inFlight = 0 := by
  rw [inFlight_add]
  obtain ⟨hguard, hgo⟩ := hstarts b.bloc
  by_cases hbs : busy b.bloc.state
  · have hpos := hbusy.mp hbs
    simp [(hguard hbs).1]
    omega
  · have hzero : b.inFlight = 0 := by
      have hnot := mt hbusy.mpr hbs
      omega
    simp [(hgo hbs).1.not_ended, hzero]

end Running

end GottaGo.Async
