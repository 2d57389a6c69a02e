/-
GottaGo.Async.Bounded — how many requests a program makes.

`AtMost n` bounds the requests of a program whatever it is told. `height`
is the least such bound. Every answer lowers it, so that the heights of the
calls in flight add up to a bound on the answers that they can still be
given.
-/
import GottaGo.Async.Schedule
import Mathlib.Algebra.GroupWithZero.Nat
import Mathlib.Order.Lattice.Nat

namespace GottaGo.Async.Prog

variable {Q : Type} {A : Q → Type} {E α β σ ο : Type}

/-- Whatever it is told, the program makes no more than `n` requests. -/
def AtMost : Prog Q A E α → Nat → Prop
  | .ret _, _ => True
  | .raise _, _ => True
  | .ask _ _, 0 => False
  | .ask _ k, n + 1 => ∀ r, (k r).AtMost n

theorem Ended.atMost {t : Prog Q A E α} (h : t.Ended) : t.AtMost 0 := by
  cases t with
  | ret a => trivial
  | raise e => trivial
  | ask q k => exact h.elim

theorem AtMost.mono {t : Prog Q A E α} {n m : Nat} (h : t.AtMost n) (hnm : n ≤ m) :
    t.AtMost m := by
  induction t generalizing n m with
  | ret a => trivial
  | raise e => trivial
  | ask q k ih =>
    cases n with
    | zero => exact h.elim
    | succ n =>
      cases m with
      | zero => omega
      | succ m => exact fun r => ih r (h r) (by omega)

theorem AtMost.bind {t : Prog Q A E α} {f : α → Prog Q A E β} {n m : Nat} (ht : t.AtMost n)
    (hf : ∀ a, (f a).AtMost m) : (t.bind f).AtMost (n + m) := by
  induction t generalizing n with
  | ret a => exact (hf a).mono (by omega)
  | raise e => trivial
  | ask q k ih =>
    cases n with
    | zero => exact ht.elim
    | succ n =>
      rw [Nat.add_right_comm]
      exact fun r => ih r (ht r)

/-- The number of requests the program makes at most. -/
noncomputable def height (t : Prog Q A E α) : Nat := sInf {n | t.AtMost n}

theorem height_le {t : Prog Q A E α} {n : Nat} (h : t.AtMost n) : t.height ≤ n := Nat.sInf_le h

/-- An answer lowers the height. -/
theorem height_answer_lt {q : Q} {k : Except E (A q) → Prog Q A E α} {n : Nat}
    (h : (ask q k).AtMost n) (r : Except E (A q)) : (k r).height < (ask q k).height := by
  have hmem : (ask q k).AtMost (ask q k).height :=
    Nat.sInf_mem (s := {n | (ask q k).AtMost n}) ⟨n, h⟩
  cases hheight : (ask q k).height with
  | zero =>
    rw [hheight] at hmem
    exact hmem.elim
  | succ m =>
    rw [hheight] at hmem
    exact Nat.lt_succ_of_le (height_le (hmem r))

/-- A step is an answer. -/
theorem height_next_lt {srv : ο → (q : Q) → σ → Except E (A q) × σ} {admits : ο → Q → σ → Bool}
    {o : ο} {s s' : σ} {t t' : Prog Q A E α} {n : Nat} (h : t.AtMost n)
    (hnext : next srv admits o s t = some (s', t')) : t'.height < t.height := by
  cases t with
  | ret a => cases hnext
  | raise e => cases hnext
  | ask q k =>
    simp only [next] at hnext
    split at hnext
    · cases hnext
      exact height_answer_lt h _
    · cases hnext

/-- One of several calls is answered, and they have less to ask. -/
theorem sum_height_set_lt {ts : List (Prog Q A E α)} {i : Nat} {t t' : Prog Q A E α}
    (hi : ts[i]? = some t) (h : t'.height < t.height) :
    ((ts.set i t').map height).sum < (ts.map height).sum := by
  induction ts generalizing i with
  | nil => cases hi
  | cons u ts ih =>
    cases i with
    | zero =>
      cases hi
      simpa using h
    | succ i => simpa using ih hi

end GottaGo.Async.Prog
