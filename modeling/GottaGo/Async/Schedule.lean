/-
GottaGo.Async.Schedule — runs of a pool that can be computed.

A schedule says which call moves next and what the environment decides
about its step. `play` follows a schedule and gives up when it names a
call that cannot move so, or when the pool entered breaks the promise of
the run. `Reach.play` says that the pools a schedule plays are reachable,
so one interleaving is shown to exist by evaluating it.

`Prog.next` is the step function of programs, against a server.

`play` is for runs whose calls have all started at first, `playMoves` for
runs in which calls start on the way.
-/
import GottaGo.Async.Pool
import Mathlib.Data.List.Infix

namespace GottaGo.Async

variable {σ τ ο : Type}

namespace Prog

variable {Q : Type} {A : Q → Type} {E α : Type}

/-- The next step of a program when the server decides `o`; `admits` says
whether it may. -/
def next (srv : ο → (q : Q) → σ → Except E (A q) × σ) (admits : ο → Q → σ → Bool)
    (o : ο) (s : σ) : Prog Q A E α → Option (σ × Prog Q A E α)
  | .ask q k =>
    if admits o q s then some ((srv o q s).2, k (srv o q s).1) else none
  | _ => none

theorem step_of_next {srv : ο → (q : Q) → σ → Except E (A q) × σ}
    {admits : ο → Q → σ → Bool} {ans : (q : Q) → σ → Except E (A q) → σ → Prop}
    (hans : ∀ o q s, admits o q s = true → ans q s (srv o q s).1 (srv o q s).2)
    {o : ο} {s s' : σ} {t t' : Prog Q A E α}
    (h : next srv admits o s t = some (s', t')) : Step ans s t s' t' := by
  cases t with
  | ret a => cases h
  | raise e => cases h
  | ask q k =>
    by_cases hadm : admits o q s = true
    · simp only [next, if_pos hadm, Option.some.injEq, Prod.mk.injEq] at h
      obtain ⟨rfl, rfl⟩ := h
      exact ⟨_, hans o q s hadm, rfl⟩
    · simp only [next, if_neg hadm, reduceCtorEq] at h

end Prog

namespace Pool

section Play

variable (next : ο → σ → τ → Option (σ × τ)) (keeps : Pool σ τ → Bool)

/-- Call number `io.1` moves, and the environment decides `io.2`. -/
def advance (c : Pool σ τ) (io : Nat × ο) : Option (Pool σ τ) :=
  match c.threads[io.1]? with
  | none => none
  | some t =>
    match next io.2 c.state t with
    | none => none
    | some (s', t') =>
      if keeps ⟨s', c.threads.set io.1 t'⟩ then some ⟨s', c.threads.set io.1 t'⟩
      else none

/-- The pool a schedule leads to. -/
def play (c : Pool σ τ) : List (Nat × ο) → Option (Pool σ τ)
  | [] => some c
  | io :: ios => (advance next keeps c io).bind fun c' => play c' ios

end Play

variable {next : ο → σ → τ → Option (σ × τ)} {keeps : Pool σ τ → Bool}
  {ok : Pool σ τ → Prop} {start : σ → σ → τ → Prop} {adv : σ → τ → σ → τ → Prop}

theorem Step.advance {c c' : Pool σ τ} {io : Nat × ο}
    (hnext : ∀ o s t s' t', next o s t = some (s', t') → adv s t s' t')
    (h : advance next keeps c io = some c') :
    Step start adv c c' ∧ keeps c' = true := by
  obtain ⟨s, ts⟩ := c
  unfold Pool.advance at h
  split at h
  · cases h
  · next t ht =>
    split at h
    · cases h
    · next s' t' hst =>
      split at h
      · next hkeep =>
        cases h
        refine ⟨?_, hkeep⟩
        obtain ⟨hi, hget⟩ := List.getElem?_eq_some_iff.mp ht
        dsimp only at hi hget hst ⊢
        have hts : ts = ts.take io.1 ++ t :: ts.drop (io.1 + 1) := by
          rw [← hget, ← List.drop_eq_getElem_cons hi, List.take_append_drop]
        have hset : ts.set io.1 t' = ts.take io.1 ++ t' :: ts.drop (io.1 + 1) :=
          List.set_eq_take_append_cons_drop.trans (if_pos hi)
        rw [hset]
        nth_rewrite 1 [hts]
        exact .adv _ _ (hnext _ _ _ _ _ hst)
      · cases h

/-- What a schedule plays is reachable. -/
theorem Reach.play {c c' : Pool σ τ} {ios : List (Nat × ο)}
    (hnext : ∀ o s t s' t', next o s t = some (s', t') → adv s t s' t')
    (hkeeps : ∀ d, keeps d = true → ok d) (h : play next keeps c ios = some c') :
    Reach ok start adv c c' := by
  induction ios generalizing c with
  | nil => cases h; exact .refl _
  | cons io ios ih =>
    obtain ⟨d, hd, hplay⟩ := Option.bind_eq_some_iff.mp h
    have hstep : Step start adv c d ∧ keeps d = true := Step.advance hnext hd
    exact Relation.ReflTransGen.head ⟨hstep.1, hkeeps d hstep.2⟩ (ih hplay)

/-- Calls that may start in a state may all have started in it, the last
of the list first. -/
theorem Reach.startAll {s : σ} {ts : List τ} (hstart : ∀ t ∈ ts, start s s t)
    (hok : ∀ us ∈ ts.tails, ok ⟨s, us⟩) : Reach ok start adv ⟨s, []⟩ ⟨s, ts⟩ := by
  induction ts with
  | nil => exact .refl _
  | cons t ts ih =>
    rw [List.tails_cons, List.forall_mem_cons] at hok
    rw [List.forall_mem_cons] at hstart
    exact (ih hstart.2 hok.2).tail (.start ts hstart.1) hok.1

/-- What a schedule of calls that have all started leads to, and is seen
to satisfy, is satisfied by a reachable pool. -/
theorem Reach.exists_play {s : σ} (ts : List τ) (ios : List (Nat × ο))
    (keeps : Pool σ τ → Bool) {p : Pool σ τ → Prop} [DecidablePred p]
    (hnext : ∀ o s t s' t', next o s t = some (s', t') → adv s t s' t')
    (hkeeps : ∀ d, keeps d = true → ok d)
    (hstart : ∀ t ∈ ts, start s s t) (hok : ∀ us ∈ ts.tails, ok ⟨s, us⟩)
    (h : (Pool.play next keeps ⟨s, ts⟩ ios).any (p ·) = true) :
    ∃ c, Reach ok start adv ⟨s, []⟩ c ∧ p c := by
  obtain ⟨c, hc, hp⟩ := (Option.any_eq_true _ _).mp h
  exact ⟨c, Relation.ReflTransGen.trans (Reach.startAll hstart hok)
    (Reach.play hnext hkeeps hc), of_decide_eq_true hp⟩

/-! ## Calls that start on the way -/

/-- A move of a schedule: a call starts, or one that has started advances. -/
inductive Move (ι ο : Type) where
  | start (i : ι)
  | adv (i : Nat) (o : ο)

section PlayMoves

variable {ι : Type} (launch : ι → σ → Option (σ × τ)) (next : ο → σ → τ → Option (σ × τ))

/-- The pool after one move. -/
def move (c : Pool σ τ) : Move ι ο → Option (Pool σ τ)
  | .start i => (launch i c.state).map fun r => ⟨r.1, r.2 :: c.threads⟩
  | .adv i o => advance next (fun _ => true) c (i, o)

/-- The pool a schedule of moves leads to. -/
def playMoves (c : Pool σ τ) : List (Move ι ο) → Option (Pool σ τ)
  | [] => some c
  | m :: ms => (move launch next c m).bind fun c' => playMoves c' ms

end PlayMoves

section PlayMoves

variable {ι : Type} {launch : ι → σ → Option (σ × τ)}

theorem Step.move {c c' : Pool σ τ} {m : Move ι ο}
    (hlaunch : ∀ i s s' t, launch i s = some (s', t) → start s s' t)
    (hnext : ∀ o s t s' t', next o s t = some (s', t') → adv s t s' t')
    (h : Pool.move launch next c m = some c') : Step start adv c c' := by
  cases m with
  | start i =>
    obtain ⟨r, hr, rfl⟩ := Option.map_eq_some_iff.mp h
    exact .start c.threads (hlaunch i _ _ _ hr)
  | adv i o =>
    have hadvance : Pool.advance next (fun _ => true) c (i, o) = some c' := h
    exact (Step.advance hnext hadvance).1

/-- What a schedule of moves leads to, and is seen to satisfy, is satisfied
by a reachable pool. -/
theorem Reach.exists_playMoves {c : Pool σ τ} (ms : List (Move ι ο))
    {p : Pool σ τ → Prop} [DecidablePred p]
    (hlaunch : ∀ i s s' t, launch i s = some (s', t) → start s s' t)
    (hnext : ∀ o s t s' t', next o s t = some (s', t') → adv s t s' t')
    (h : (Pool.playMoves launch next c ms).any (p ·) = true) :
    ∃ c', Run start adv c c' ∧ p c' := by
  induction ms generalizing c with
  | nil => exact ⟨c, .refl c, of_decide_eq_true h⟩
  | cons m ms ih =>
    obtain ⟨c₂, hplay, hp⟩ := (Option.any_eq_true _ _).mp h
    obtain ⟨c₁, hmove, hrest⟩ := Option.bind_eq_some_iff.mp hplay
    obtain ⟨c', hrun, hc'⟩ := ih ((Option.any_eq_true _ _).mpr ⟨c₂, hrest, hp⟩)
    have hstep : Step start adv c c₁ := Step.move hlaunch hnext hmove
    exact ⟨c', Relation.ReflTransGen.head ⟨hstep, trivial⟩ hrun, hc'⟩

end PlayMoves

end Pool

end GottaGo.Async
