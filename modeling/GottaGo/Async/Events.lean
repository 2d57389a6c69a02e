/-
GottaGo.Async.Events — systems driven by events.

`step s e` is the state event `e` leads to from `s`, `none` where it
cannot happen. `replay` follows a sequence of events that all keep the
promise `ok`, so "every run whose events keep the promise" is "every
`replay` that succeeds", and one run is shown by evaluating it.
`free` promises nothing.
-/
import Mathlib.Tactic.Common

namespace GottaGo.Async.Events

variable {σ E : Type}

/-- The state after the events, if they can happen and keep the promise. -/
def replay (step : σ → E → Option σ) (ok : σ → E → Bool) : σ → List E → Option σ
  | s, [] => some s
  | s, e :: es => if ok s e then (step s e).bind fun s' => replay step ok s' es else none

/-- No promise. -/
def free (_ : σ) (_ : E) : Bool := true

variable {step : σ → E → Option σ} {ok : σ → E → Bool} {s s' : σ} {es fs : List E}

@[simp] theorem replay_nil (s : σ) : replay step ok s [] = some s := rfl

theorem replay_cons_eq_some {e : E} :
    replay step ok s (e :: es) = some s' ↔
      ok s e = true ∧ ∃ t, step s e = some t ∧ replay step ok t es = some s' := by
  by_cases h : ok s e = true <;> simp [replay, h, Option.bind_eq_some_iff]

theorem replay_append (s : σ) (es fs : List E) :
    replay step ok s (es ++ fs) = (replay step ok s es).bind fun t => replay step ok t fs := by
  induction es generalizing s with
  | nil => rfl
  | cons e es ih =>
    by_cases h : ok s e = true
    · simp only [List.cons_append, replay, h, if_true, Option.bind_assoc]
      exact congrArg (Option.bind (step s e)) (funext ih)
    · simp [replay, h]

/-- A run goes through where every event can happen. -/
theorem replay_free_isSome (hstep : ∀ s e, (step s e).isSome) (s : σ) (es : List E) :
    (replay step free s es).isSome := by
  induction es generalizing s with
  | nil => rfl
  | cons e es ih =>
    obtain ⟨t, ht⟩ := Option.isSome_iff_exists.mp (hstep s e)
    simpa [replay, free, ht] using ih t

/-- What holds at first and survives every event holds after every run. -/
theorem replay_invariant {J : σ → Prop} (h : replay step ok s es = some s') (h0 : J s)
    (hstep : ∀ s e s', J s → ok s e = true → step s e = some s' → J s') : J s' := by
  induction es generalizing s with
  | nil =>
    cases h
    exact h0
  | cons e es ih =>
    obtain ⟨hok, t, ht, hes⟩ := replay_cons_eq_some.mp h
    exact ih hes (hstep s e t h0 hok ht)

/-- The same for what is said of the events so far and the state they lead
to. -/
theorem replay_history {J : List E → σ → Prop} (h : replay step ok s es = some s')
    (h0 : J [] s)
    (hstep : ∀ fs s e s', J fs s → ok s e = true → step s e = some s' → J (fs ++ [e]) s') :
    J es s' := by
  have hgen : ∀ (fs : List E) (t : σ), replay step ok t es = some s' → J fs t →
      J (fs ++ es) s' := by
    clear h h0
    induction es with
    | nil =>
      intro fs t h hJ
      cases h
      simpa using hJ
    | cons e es ih =>
      intro fs t h hJ
      obtain ⟨hok, u, hu, hes⟩ := replay_cons_eq_some.mp h
      have hrest := ih (fs ++ [e]) u hes (hstep fs t e u hJ hok hu)
      simpa using hrest
  exact hgen [] s h h0

/-- Where an event that can happen keeps `P` just when it keeps the promise,
`P` holds all along a run just when the run keeps the promise. -/
theorem replay_promise_iff {J P : σ → Prop} (hJ : J s) (hP : P s)
    (hstep : ∀ s e s', J s → P s → step s e = some s' → J s' ∧ (P s' ↔ ok s e = true))
    (h : (replay step free s es).isSome) :
    (∀ k t, replay step free s (es.take k) = some t → P t) ↔
      (replay step ok s es).isSome := by
  induction es generalizing s with
  | nil => simpa using hP
  | cons e es ih =>
    obtain ⟨s', hs'⟩ := Option.isSome_iff_exists.mp h
    obtain ⟨-, t, ht, hes⟩ := replay_cons_eq_some.mp hs'
    obtain ⟨hJt, hiff⟩ := hstep s e t hJ hP ht
    have hrest : (replay step free t es).isSome := by rw [hes]; rfl
    constructor
    · intro hall
      have hPt : P t := hall 1 t (by simp [replay, free, ht])
      have hok : ok s e = true := hiff.mp hPt
      have hkept := (ih hJt hPt hrest).mp fun k u hu =>
        hall (k + 1) u (by simpa [replay, free, ht] using hu)
      simpa [replay, hok, ht] using hkept
    · intro hkept k u hu
      obtain ⟨v, hv⟩ := Option.isSome_iff_exists.mp hkept
      obtain ⟨hok, t', ht', hes'⟩ := replay_cons_eq_some.mp hv
      rw [ht] at ht'
      cases ht'
      have hPt : P t := hiff.mpr hok
      cases k with
      | zero =>
        cases hu
        exact hP
      | succ k =>
        have hkeeps : (replay step ok t es).isSome := by rw [hes']; rfl
        refine (ih hJt hPt hrest).mpr hkeeps k u ?_
        simpa [replay, free, ht] using hu

end GottaGo.Async.Events
