/-
GottaGo.Async.Pool — calls in flight over one shared state.

A pool is a shared state and the list of calls started on it. Two things
happen to it: a new call starts, or one call that is already there
advances by one of its steps. `Reach` is any finite sequence of these,
so a theorem about every reachable pool is a theorem about every
interleaving.

Four rules carry the proofs of this development:

* `Reach.invariant`: what holds at first and survives every step holds
  in every reachable pool;
* `Reach.refines`: if every call sits at a named control point and the
  steps of the calls are steps between control points, a run of the
  calls is a run of the control points over the same states;
* `Reach.simulates`: if every step of a pool is a step of its image in
  another kind of pool, or no step there, then so is every run;
* `Reach.conserves`: what the state and the calls hold together does not
  change if no step changes what the state and its own call hold.
-/
import GottaGo.Async.Prog
import Mathlib.Algebra.BigOperators.Group.List.Basic
import Mathlib.Logic.Relation

namespace GottaGo.Async

/-- A shared state and the calls started on it, ended ones included. -/
structure Pool (σ τ : Type) where
  state : σ
  threads : List τ

namespace Pool

variable {σ τ φ : Type}

/-- One step of a pool. `start s s' t` says that call `t` may start in
state `s`, leaving `s'`; `adv s t s' t'` that call `t` may take a step. -/
inductive Step (start : σ → σ → τ → Prop) (adv : σ → τ → σ → τ → Prop) :
    Pool σ τ → Pool σ τ → Prop
  | start {s s' : σ} {t : τ} (ts : List τ) :
      start s s' t → Step start adv ⟨s, ts⟩ ⟨s', t :: ts⟩
  | adv {s s' : σ} {t t' : τ} (pre post : List τ) :
      adv s t s' t' → Step start adv ⟨s, pre ++ t :: post⟩ ⟨s', pre ++ t' :: post⟩

/-- Runs of a pool. `ok` is what the run is promised to keep to: every
pool it enters satisfies it. -/
def Reach (ok : Pool σ τ → Prop) (start : σ → σ → τ → Prop)
    (adv : σ → τ → σ → τ → Prop) : Pool σ τ → Pool σ τ → Prop :=
  Relation.ReflTransGen fun c c' => Step start adv c c' ∧ ok c'

/-- Runs that keep to nothing in particular. -/
abbrev Run (start : σ → σ → τ → Prop) (adv : σ → τ → σ → τ → Prop) :
    Pool σ τ → Pool σ τ → Prop :=
  Reach (fun _ => True) start adv

section Rules

variable {ok : Pool σ τ → Prop} {start : σ → σ → τ → Prop}
  {adv : σ → τ → σ → τ → Prop} {c c' : Pool σ τ}

theorem Reach.refl (c : Pool σ τ) : Reach ok start adv c c :=
  Relation.ReflTransGen.refl

theorem Reach.tail {c'' : Pool σ τ} (h : Reach ok start adv c c')
    (hs : Step start adv c' c'') (hok : ok c'') : Reach ok start adv c c'' :=
  Relation.ReflTransGen.tail h ⟨hs, hok⟩

/-- What holds at first and survives every step holds in every reachable
pool. -/
theorem Reach.invariant {J : Pool σ τ → Prop}
    (h : Reach ok start adv c c') (h0 : J c)
    (hstep : ∀ d d', J d → Step start adv d d' → ok d' → J d') : J c' := by
  induction h with
  | refl => exact h0
  | tail _ hs ih => exact hstep _ _ ih hs.1 hs.2

/-- A run of calls that sit at control points is a run of the control
points over the same states. -/
theorem Reach.refines (task : φ → τ) {okφ : Pool σ φ → Prop}
    {startφ : σ → σ → φ → Prop} {advφ : σ → φ → σ → φ → Prop}
    (hstart : ∀ s s' t, start s s' t → ∃ p, t = task p ∧ startφ s s' p)
    (hadv : ∀ s p s' t', adv s (task p) s' t' →
      ∃ p', t' = task p' ∧ advφ s p s' p')
    (hok : ∀ s ps, ok ⟨s, ps.map task⟩ → okφ ⟨s, ps⟩)
    {s : σ} {ps : List φ} (h : Reach ok start adv ⟨s, ps.map task⟩ c') :
    ∃ ps', c'.threads = ps'.map task ∧
      Reach okφ startφ advφ ⟨s, ps⟩ ⟨c'.state, ps'⟩ := by
  induction h with
  | refl => exact ⟨ps, rfl, .refl _⟩
  | @tail d d' _ hs ih =>
    obtain ⟨ps₁, hps₁, hr⟩ := ih
    obtain ⟨hs, hd'⟩ := hs
    cases hs with
    | start ts ht =>
      obtain ⟨p, rfl, hp⟩ := hstart _ _ _ ht
      simp only at hps₁
      subst hps₁
      exact ⟨p :: ps₁, rfl, hr.tail (.start ps₁ hp) (hok _ (p :: ps₁) hd')⟩
    | adv pre post ht =>
      obtain ⟨pre', rest, rfl, rfl, hrest⟩ :=
        List.map_eq_append_iff.mp hps₁.symm
      obtain ⟨p, post', rfl, rfl, rfl⟩ := List.map_eq_cons_iff.mp hrest
      obtain ⟨p', rfl, hp'⟩ := hadv _ _ _ _ ht
      have hmap : pre'.map task ++ task p' :: post'.map task =
          (pre' ++ p' :: post').map task := by simp
      exact ⟨pre' ++ p' :: post', hmap,
        hr.tail (.adv pre' post' hp') (hok _ _ (hmap ▸ hd'))⟩

/-- Steps of a pool, seen through `abs`, are steps of another kind of
pool or none; an invariant `J` of the first may be used to see that. -/
theorem Reach.simulates {σ' τ' : Type} {okA : Pool σ' τ' → Prop}
    {startA : σ' → σ' → τ' → Prop} {advA : σ' → τ' → σ' → τ' → Prop}
    (abs : Pool σ τ → Pool σ' τ') {J : Pool σ τ → Prop}
    (hstep : ∀ d d', J d → Step start adv d d' → ok d' →
      J d' ∧ (abs d' = abs d ∨ Step startA advA (abs d) (abs d') ∧ okA (abs d')))
    (h : Reach ok start adv c c') (hJ : J c) :
    J c' ∧ Reach okA startA advA (abs c) (abs c') := by
  induction h with
  | refl => exact ⟨hJ, .refl _⟩
  | tail _ hs ih =>
    obtain ⟨hJ', hr⟩ := ih
    obtain ⟨hJ'', heq | ⟨hs', hok⟩⟩ := hstep _ _ hJ' hs.1 hs.2
    · exact ⟨hJ'', heq ▸ hr⟩
    · exact ⟨hJ'', hr.tail hs' hok⟩

/-- What the state holds by `g` and the calls hold by `f`. -/
def total {M : Type} [AddCommMonoid M] (g : σ → M) (f : τ → M) (c : Pool σ τ) : M :=
  g c.state + (c.threads.map f).sum

/-- What is handed on between the state and the call that moves is
conserved by every run. -/
theorem Reach.conserves {M : Type} [AddCommMonoid M] {g : σ → M} {f : τ → M}
    (hstart : ∀ s s' t, start s s' t → g s' + f t = g s)
    (hadv : ∀ s t s' t', adv s t s' t' → g s' + f t' = g s + f t)
    (h : Reach ok start adv c c') : c'.total g f = c.total g f := by
  refine h.invariant (J := fun d => d.total g f = c.total g f) rfl ?_
  intro d d' hd hs _
  rw [← hd]
  cases hs with
  | @start s s' t ts ht =>
    have hg := hstart _ _ _ ht
    simp only [total, List.map_cons, List.sum_cons]
    rw [← add_assoc, hg]
  | @adv s s' t t' pre post ht =>
    have hmid : ∀ s u, total g f ⟨s, pre ++ u :: post⟩ =
        g s + f u + ((pre.map f).sum + (post.map f).sum) := by
      intro s u
      simp only [total, List.map_append, List.map_cons, List.sum_append, List.sum_cons]
      rw [add_left_comm (List.sum _) (f u), ← add_assoc]
    rw [hmid, hmid, hadv _ _ _ _ ht]

end Rules

section Programs

variable {Q : Type} {A : Q → Type} {E α : Type}
  {ok : Pool σ (Prog Q A E α) → Prop} {start : σ → σ → Prog Q A E α → Prop}
  {ans : (q : Q) → σ → Except E (A q) → σ → Prop}
  {c c' : Pool σ (Prog Q A E α)}

/-- No call is in flight. -/
def Quiet (c : Pool σ (Prog Q A E α)) : Prop := ∀ t ∈ c.threads, t.Ended

instance (c : Pool σ (Prog Q A E α)) : Decidable c.Quiet :=
  inferInstanceAs (Decidable (∀ t ∈ c.threads, t.Ended))

/-- A step of a pool of bounded calls starts a call, or serves a request
within the bound; if the answer is one the bound relies on, the calls
stay bounded. -/
theorem Step.respects {rely : (q : Q) → Except E (A q) → Prop} {guar : Q → Prop}
    (hstart : ∀ s s' t, start s s' t → t.Respects rely guar)
    (hts : ∀ t ∈ c.threads, t.Respects rely guar)
    (h : Step start (Prog.Step ans) c c') :
    (∃ t, start c.state c'.state t ∧ ∀ t ∈ c'.threads, t.Respects rely guar) ∨
      ∃ q r, guar q ∧ ans q c.state r c'.state ∧
        (rely q r → ∀ t ∈ c'.threads, t.Respects rely guar) := by
  cases h with
  | @start s s' t ts ht =>
    exact .inl ⟨t, ht, List.forall_mem_cons.mpr ⟨hstart s s' t ht, hts⟩⟩
  | @adv s s' t t' pre post ht =>
    simp only [List.mem_append, List.mem_cons] at hts
    obtain ⟨q, r, hq, hans, hr⟩ := (hts t (.inr (.inl rfl))).step ht
    refine .inr ⟨q, r, hq, hans, fun hrely u hu => ?_⟩
    simp only [List.mem_append, List.mem_cons] at hu
    rcases hu with hu | rfl | hu
    · exact hts u (.inl hu)
    · exact hr hrely
    · exact hts u (.inr (.inr hu))

end Programs

end Pool

end GottaGo.Async
