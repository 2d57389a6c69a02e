/-
GottaGo.Async.Shuttle — moving a thing between two slots by emptying the
one and then filling the other.

A call moves the thing from slot `d` to slot `!d`: it empties `d`
whether it is filled or not, and some time later fills `!d`. Calls in
both directions interleave freely. `Run.held` is what always holds: once
no call is between its two steps, some slot is filled. `Reach.one` is
what holds when no two calls cross, that is, are between their two steps
in opposite directions at one moment: exactly one slot is filled.
-/
import GottaGo.Async.Pool
import Mathlib.Logic.Function.Basic

namespace GottaGo.Async.Shuttle

open Pool

/-- Which slots are filled. -/
abbrev Slots := Bool → Prop

/-- Where a call that moves from slot `d` stands. -/
inductive Point where
  | idle (d : Bool)
  | carrying (d : Bool)
  | ended

/-- The two steps of a call. -/
inductive Adv : Slots → Point → Slots → Point → Prop
  | empty (s : Slots) (d : Bool) :
      Adv s (.idle d) (Function.update s d False) (.carrying d)
  | fill (s : Slots) (d : Bool) :
      Adv s (.carrying d) (Function.update s (!d) True) .ended

/-- A call starts with nothing moved. -/
def Start (s s' : Slots) (p : Point) : Prop := s' = s ∧ ∃ d, p = .idle d

/-- Two calls are between their steps in opposite directions. -/
def Crossing (c : Pool Slots Point) : Prop :=
  .carrying false ∈ c.threads ∧ .carrying true ∈ c.threads

/-- No call is between its steps. -/
def Settled (c : Pool Slots Point) : Prop := ∀ d, .carrying d ∉ c.threads

/-! ## What always holds -/

/-- The thing is in a slot or is being carried. -/
def Held (c : Pool Slots Point) : Prop :=
  (∃ d, c.state d) ∨ ∃ d, .carrying d ∈ c.threads

theorem Held.step {c c' : Pool Slots Point} (h : Held c) (hs : Step Start Adv c c') :
    Held c' := by
  cases hs with
  | start ts ht =>
    obtain ⟨rfl, -⟩ := ht
    rcases h with hfull | ⟨d, hd⟩
    · exact .inl hfull
    · exact .inr ⟨d, List.mem_cons_of_mem _ hd⟩
  | adv pre post ht =>
    cases ht with
    | empty d => exact .inr ⟨d, by simp⟩
    | fill d => exact .inl ⟨!d, by simp⟩

/-- When no call is between its steps, some slot is filled. -/
theorem Run.held {s : Slots} {c : Pool Slots Point} (hs : ∃ d, s d)
    (h : Run Start Adv ⟨s, []⟩ c) (hc : Settled c) : ∃ d, c.state d := by
  have hheld : Held c := h.invariant (.inl hs) fun _ _ hd hst _ => hd.step hst
  rcases hheld with hfull | ⟨d, hd⟩
  · exact hfull
  · exact absurd hd (hc d)

/-! ## What holds when calls do not cross -/

/-- Calls do not cross, the slot a call has emptied is empty, and if no
call is between its steps exactly one slot is filled. -/
structure Single (c : Pool Slots Point) : Prop where
  apart : ¬ Crossing c
  emptied : ∀ d, .carrying d ∈ c.threads → ¬ c.state d
  one : Settled c → (c.state true ↔ ¬ c.state false)

theorem Single.not_carrying {c : Pool Slots Point} (h : Single c) {d : Bool}
    (hd : .carrying d ∈ c.threads) : .carrying (!d) ∉ c.threads := by
  intro hd'
  cases d with
  | false => exact h.apart ⟨hd, hd'⟩
  | true => exact h.apart ⟨hd', hd⟩

theorem Single.step {c c' : Pool Slots Point} (h : Single c)
    (hs : Step Start Adv c c') (hc' : ¬ Crossing c') : Single c' := by
  cases hs with
  | @start s s' p ts ht =>
    obtain ⟨rfl, d, rfl⟩ := ht
    have hmem : ∀ e, Point.carrying e ∈ Point.idle d :: ts ↔ .carrying e ∈ ts := by
      simp
    refine ⟨hc', fun e he => h.emptied e ((hmem e).mp he), fun hset => ?_⟩
    exact h.one fun e he => hset e ((hmem e).mpr he)
  | @adv s s' p p' pre post ht =>
    cases ht with
    | empty d =>
      refine ⟨hc', fun e he => ?_, fun hset => absurd (by simp) (hset d)⟩
      by_cases hed : e = d
      · subst hed
        simp
      · -- a call that carries from the other slot would cross this one
        have hflip : e = !d := by
          cases e <;> cases d <;> simp_all
        subst hflip
        cases d with
        | false => exact absurd ⟨by simp, he⟩ hc'
        | true => exact absurd ⟨he, by simp⟩ hc'
    | fill d =>
      have hd : Point.carrying d ∈ pre ++ Point.carrying d :: post := by simp
      have hother : ∀ e, Point.carrying e ∈ pre ++ Point.ended :: post →
          Point.carrying e ∈ pre ++ Point.carrying d :: post := by
        intro e he
        simp only [List.mem_append, List.mem_cons, reduceCtorEq, false_or] at he
        rcases he with he | he
        · exact List.mem_append_left _ he
        · exact List.mem_append_right _ (List.mem_cons_of_mem _ he)
      have hempty : ¬ s d := h.emptied d hd
      refine ⟨hc', fun e he => ?_, fun _ => ?_⟩
      · have hed : e = d := by
          by_contra hne
          have hflip : e = !d := by
            cases e <;> cases d <;> simp_all
          exact h.not_carrying hd (hflip ▸ hother e he)
        subst hed
        simpa using hempty
      · cases d <;> simpa using hempty

/-- When calls do not cross and none is between its steps, exactly one
slot is filled. -/
theorem Reach.one {s : Slots} {c : Pool Slots Point} (hs : s true ↔ ¬ s false)
    (h : Reach (fun d => ¬ Crossing d) Start Adv ⟨s, []⟩ c) (hc : Settled c) :
    c.state true ↔ ¬ c.state false := by
  have hsingle : Single c := by
    refine h.invariant ⟨?_, ?_, fun _ => hs⟩ fun _ _ hd hst hok => hd.step hst hok
    · intro hx
      obtain ⟨hfalse, -⟩ := hx
      cases hfalse
    · intro d hd
      cases hd
  exact hsingle.one hc

end GottaGo.Async.Shuttle
