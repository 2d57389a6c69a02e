/-
GottaGo.Async.Handshake — keeping the two sides of a relation, one write
at a time.

Two records of one relation are kept by calls that first enter a pair on
one side (`named`) and then on the other (`linked`). Calls interleave
freely and may enter the same pair. `Run.linked_subset` is the half that
holds at every moment: what is linked is named. `Run.linked_eq` is the
half that holds when no call is between its two writes: the sides agree.
-/
import GottaGo.Async.Pool
import Mathlib.Data.Set.Insert

namespace GottaGo.Async.Handshake

open Pool

variable {X : Type}

/-- The two records. -/
structure Sides (X : Type) where
  named : Set X
  linked : Set X

/-- Where a call stands: it has written nothing, it has named a pair it
has not linked, or it has ended. -/
inductive Point (X : Type) where
  | idle
  | announced (x : X)
  | ended

/-- The steps of a call. -/
inductive Adv : Sides X → Point X → Sides X → Point X → Prop
  | announce (s : Sides X) (x : X) :
      Adv s .idle { s with named := insert x s.named } (.announced x)
  | link (s : Sides X) (x : X) :
      Adv s (.announced x) { s with linked := insert x s.linked } .ended
  | quit (s : Sides X) : Adv s .idle s .ended

/-- A call starts with nothing written. -/
def Start (s s' : Sides X) (p : Point X) : Prop := s' = s ∧ p = .idle

/-- What is linked is named; what is named is linked, or a call that has
named it is on its way to link it. -/
structure Inv (c : Pool (Sides X) (Point X)) : Prop where
  sub : c.state.linked ⊆ c.state.named
  due : ∀ x ∈ c.state.named, x ∈ c.state.linked ∨ .announced x ∈ c.threads
  announced : ∀ x, .announced x ∈ c.threads → x ∈ c.state.named

theorem Inv.step {c c' : Pool (Sides X) (Point X)} (h : Inv c)
    (hs : Step Start Adv c c') : Inv c' := by
  cases hs with
  | start ts ht =>
    obtain ⟨rfl, rfl⟩ := ht
    refine ⟨h.sub, fun x hx => ?_, fun x hx => ?_⟩
    · rcases h.due x hx with hl | ha
      · exact .inl hl
      · exact .inr (List.mem_cons_of_mem _ ha)
    · rcases List.mem_cons.mp hx with hx | hx
      · cases hx
      · exact h.announced x hx
  | @adv s _ _ _ pre post ht =>
    obtain ⟨hsub, hdue, hann⟩ := h
    simp only [List.mem_append, List.mem_cons] at hdue hann
    cases ht with
    | announce y =>
      refine ⟨fun x hx => .inr (hsub hx), fun x hx => ?_, fun x hx => ?_⟩
      · rcases hx with rfl | hx
        · exact .inr (by simp)
        · rcases hdue x hx with hl | hp | hy | hp
          · exact .inl hl
          · exact .inr (by simp [hp])
          · cases hy
          · exact .inr (by simp [hp])
      · simp only [List.mem_append, List.mem_cons, Point.announced.injEq] at hx
        rcases hx with hp | rfl | hp
        · exact .inr (hann x (.inl hp))
        · exact .inl rfl
        · exact .inr (hann x (.inr (.inr hp)))
    | link y =>
      have hy : y ∈ s.named := hann y (.inr (.inl rfl))
      refine ⟨fun x hx => ?_, fun x hx => ?_, fun x hx => ?_⟩
      · rcases hx with rfl | hx
        · exact hy
        · exact hsub hx
      · rcases hdue x hx with hl | hp | hx' | hp
        · exact .inl (.inr hl)
        · exact .inr (by simp [hp])
        · cases hx'
          exact .inl (.inl rfl)
        · exact .inr (by simp [hp])
      · simp only [List.mem_append, List.mem_cons, reduceCtorEq, false_or] at hx
        exact hann x (hx.imp_right .inr)
    | quit =>
      refine ⟨hsub, fun x hx => ?_, fun x hx => ?_⟩
      · rcases hdue x hx with hl | hp | hx' | hp
        · exact .inl hl
        · exact .inr (by simp [hp])
        · cases hx'
        · exact .inr (by simp [hp])
      · simp only [List.mem_append, List.mem_cons, reduceCtorEq, false_or] at hx
        exact hann x (hx.imp_right .inr)

/-- From agreeing sides and no call, every run keeps the invariant. -/
theorem Inv.of_run {A : Set X} {c : Pool (Sides X) (Point X)}
    (h : Run Start Adv ⟨⟨A, A⟩, []⟩ c) : Inv c :=
  h.invariant ⟨le_rfl, fun _ hx => .inl hx, fun _ hx => by cases hx⟩
    fun _ _ hd hs _ => hd.step hs

/-- At every moment what is linked is named. -/
theorem Run.linked_subset {A : Set X} {c : Pool (Sides X) (Point X)}
    (h : Run Start Adv ⟨⟨A, A⟩, []⟩ c) : c.state.linked ⊆ c.state.named :=
  (Inv.of_run h).sub

/-- When no call is between its two writes the sides agree. -/
theorem Run.linked_eq {A : Set X} {c : Pool (Sides X) (Point X)}
    (h : Run Start Adv ⟨⟨A, A⟩, []⟩ c) (hq : ∀ x, .announced x ∉ c.threads) :
    c.state.linked = c.state.named :=
  have hinv := Inv.of_run h
  Set.Subset.antisymm hinv.sub fun x hx => (hinv.due x hx).resolve_right (hq x)

end GottaGo.Async.Handshake
