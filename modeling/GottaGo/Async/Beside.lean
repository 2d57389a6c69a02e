/-
GottaGo.Async.Beside — a handler next to the calls it has started.

A call that a handler starts and does not await goes on by itself: it gets
answers to its requests while the handler waits, or after it. `Stage` is
what a handler has around it: the shared state, the calls it has started,
as far as they have got, and what it has shown so far. What it shows is
kept with the shared state and the calls of that moment, so that one can
ask what a state that was shown was worth then.

`beside` is the server of such a handler. What happens during its waits is
up to the environment (`during`), as is how the requests of a call that it
awaits are answered (`π`).
-/
import GottaGo.Async.Bloc

namespace GottaGo.Async

variable {Q : Type} {A : Q → Type} {E σ ο : Type} {S C : Type} {R : C → Type}

/-- A state that was shown, with the shared state and the calls as they
were then. -/
structure Moment (S σ : Type) (Q : Type) (A : Q → Type) (E : Type) where
  shown : S
  world : σ
  calls : List (Prog Q A E Unit)

/-- What a handler has around it. -/
structure Stage (S σ : Type) (Q : Type) (A : Q → Type) (E : Type) where
  state : S
  world : σ
  calls : List (Prog Q A E Unit) := []
  waits : Nat := 0
  moments : List (Moment S σ Q A E) := []

namespace Prog

/-- The program after it has been answered as the environment decides, one
request for each decision. One that has ended is not answered. -/
def feed (srv : ο → (q : Q) → σ → Except E (A q) × σ) :
    Prog Q A E Unit → σ → List ο → σ × Prog Q A E Unit
  | .ask q k, s, o :: os => feed srv (k (srv o q s).1) (srv o q s).2 os
  | t, s, _ => (s, t)

end Prog

namespace Stage

variable (srv : ο → (q : Q) → σ → Except E (A q) × σ)

/-- The stage after the handler has emitted `s`. -/
def emit (g : Stage S σ Q A E) (s : S) : Stage S σ Q A E :=
  { g with state := s, moments := g.moments ++ [⟨s, g.world, g.calls⟩] }

/-- The stage after `t` has been started. -/
def start (g : Stage S σ Q A E) (t : Prog Q A E Unit) : Stage S σ Q A E :=
  { g with calls := g.calls ++ [t] }

/-- Call number `i` gets an answer, as the environment decides. -/
def answer (g : Stage S σ Q A E) (io : Nat × ο) : Stage S σ Q A E :=
  match g.calls[io.1]? with
  | some (.ask q k) =>
    { g with
      world := (srv io.2 q g.world).2
      calls := g.calls.set io.1 (k (srv io.2 q g.world).1) }
  | _ => g

/-- The stage after a wait. -/
def meanwhile (g : Stage S σ Q A E) (ios : List (Nat × ο)) : Stage S σ Q A E :=
  { ios.foldl (answer srv) g with waits := g.waits + 1 }

@[simp] theorem emit_world (g : Stage S σ Q A E) (s : S) : (g.emit s).world = g.world := rfl

@[simp] theorem emit_calls (g : Stage S σ Q A E) (s : S) : (g.emit s).calls = g.calls := rfl

@[simp] theorem emit_waits (g : Stage S σ Q A E) (s : S) : (g.emit s).waits = g.waits := rfl

@[simp] theorem emit_moments (g : Stage S σ Q A E) (s : S) :
    (g.emit s).moments = g.moments ++ [⟨s, g.world, g.calls⟩] := rfl

@[simp] theorem start_world (g : Stage S σ Q A E) (t : Prog Q A E Unit) :
    (g.start t).world = g.world := rfl

@[simp] theorem start_calls (g : Stage S σ Q A E) (t : Prog Q A E Unit) :
    (g.start t).calls = g.calls ++ [t] := rfl

@[simp] theorem start_waits (g : Stage S σ Q A E) (t : Prog Q A E Unit) :
    (g.start t).waits = g.waits := rfl

@[simp] theorem start_moments (g : Stage S σ Q A E) (t : Prog Q A E Unit) :
    (g.start t).moments = g.moments := rfl

@[simp] theorem answer_moments (g : Stage S σ Q A E) (io : Nat × ο) :
    (g.answer srv io).moments = g.moments := by
  unfold answer
  split <;> rfl

@[simp] theorem meanwhile_moments (g : Stage S σ Q A E) (ios : List (Nat × ο)) :
    (g.meanwhile srv ios).moments = g.moments := by
  show (ios.foldl (answer srv) g).moments = _
  induction ios generalizing g with
  | nil => rfl
  | cons io ios ih => rw [List.foldl_cons, ih, answer_moments]

/-- The decisions about call number `i`. -/
def decisions (i : Nat) (ios : List (Nat × ο)) : List ο :=
  (ios.filter fun io => io.1 = i).map Prod.snd

/-- A call that is alone gets on as it is answered. -/
theorem meanwhile_one {g : Stage S σ Q A E} {t : Prog Q A E Unit} (hcalls : g.calls = [t])
    (ios : List (Nat × ο)) :
    (g.meanwhile srv ios).world = (t.feed srv g.world (decisions 0 ios)).1 ∧
      (g.meanwhile srv ios).calls = [(t.feed srv g.world (decisions 0 ios)).2] := by
  show (ios.foldl (answer srv) g).world = _ ∧ (ios.foldl (answer srv) g).calls = _
  induction ios generalizing g t with
  | nil =>
    cases t <;> exact ⟨rfl, hcalls⟩
  | cons io ios ih =>
    obtain ⟨i, o⟩ := io
    cases i with
    | succ i =>
      have hidle : g.answer srv (i + 1, o) = g := by simp [answer, hcalls]
      simpa [List.foldl_cons, hidle, decisions] using ih hcalls
    | zero =>
      have hdec : decisions 0 ((0, o) :: ios) = o :: decisions 0 ios := by simp [decisions]
      rw [List.foldl_cons, hdec]
      cases t with
      | ask q k =>
        have hgoes : g.answer srv (0, o) =
            { g with world := (srv o q g.world).2, calls := [k (srv o q g.world).1] } := by
          simp [answer, hcalls]
        rw [hgoes]
        exact ih rfl
      | ret a =>
        have hidle : g.answer srv (0, o) = g := by simp [answer, hcalls]
        rw [hidle, (ih hcalls).1, (ih hcalls).2]
        exact ⟨rfl, rfl⟩
      | raise e =>
        have hidle : g.answer srv (0, o) = g := by simp [answer, hcalls]
        rw [hidle, (ih hcalls).1, (ih hcalls).2]
        exact ⟨rfl, rfl⟩

end Stage

/-! ## The server -/

variable (task : (c : C) → Prog Q A E (R c)) (srv : ο → (q : Q) → σ → Except E (A q) × σ)
  (π : Q → ο) (during : Nat → List (Nat × ο))

/-- The server of a handler whose calls are `task`. A call that it awaits
runs without the others. -/
def beside (q : BlocReq S C) (g : Stage S σ Q A E) :
    Except E (BlocReq.Ans R q) × Stage S σ Q A E :=
  match q with
  | .emit s => (.ok (), g.emit s)
  | .state => (.ok g.state, g)
  | .call c =>
    let rs := Prog.eval (fun q s => srv (π q) q s) (task c) g.world
    (rs.1, { g with world := rs.2 })
  | .start c => (.ok (), g.start (task c).void)
  | .wait => (.ok (), g.meanwhile srv (during g.waits))

/-- All that a handler shows that starts in state `s` over `w`. -/
def moments (t : Handler S C R E Unit) (s : S) (w : σ) : List (Moment S σ Q A E) :=
  (Prog.eval (beside task srv π during) t { state := s, world := w }).2.moments

namespace Handler

@[simp] theorem beside_emit (s : S) (g : Stage S σ Q A E) :
    Prog.eval (beside task srv π during) (emit s : Handler S C R E Unit) g =
      (.ok (), g.emit s) := by
  rw [emit, Prog.eval_await, beside]

@[simp] theorem beside_start (c : C) (g : Stage S σ Q A E) :
    Prog.eval (beside task srv π during) (start c : Handler S C R E Unit) g =
      (.ok (), g.start (task c).void) := by
  rw [start, Prog.eval_await, beside]

@[simp] theorem beside_wait (g : Stage S σ Q A E) :
    Prog.eval (beside task srv π during) (wait : Handler S C R E Unit) g =
      (.ok (), g.meanwhile srv (during g.waits)) := by
  rw [wait, Prog.eval_await, beside]

theorem beside_call (c : C) (g : Stage S σ Q A E) :
    Prog.eval (beside task srv π during) (call c : Handler S C R E (R c)) g =
      ((Prog.eval (fun q s => srv (π q) q s) (task c) g.world).1,
        { g with world := (Prog.eval (fun q s => srv (π q) q s) (task c) g.world).2 }) := by
  rw [call, Prog.eval_await, beside]

end Handler

end GottaGo.Async
