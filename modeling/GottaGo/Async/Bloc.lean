/-
GottaGo.Async.Bloc — event handlers that run over the state of a bloc.

A bloc holds a state, and a handler for each event that is added to it.
A handler may emit a state, read the state there is, await a call, wait,
or start a call that it does not await. It runs without interruption
until it awaits or waits (`Handler.settle`), so what it emits it emits in
one go with what it was told.

Handlers do not wait for one another. `Running` is a bloc with the
handlers of the events added so far; in a `Move` an event is added and
its handler runs to its first await, or a handler is answered and runs to
its next. Any handler that awaits may be answered next.

`Delivers` says of a handler that, whatever the state it reads, it ends
by emitting `s` if its calls are answered by `r`. When all handlers have
ended, the state is the one delivered by the handler that moved last
(`Running.state_of_ended`): what the others delivered is gone.

`alone` is the server of a handler that nothing else runs next to.
-/
import GottaGo.Async.Events
import GottaGo.Async.Prog
import Mathlib.Data.List.Infix

namespace GottaGo.Async

/-- What a handler may ask for. `S` are the states of the bloc, `C` the
calls. -/
inductive BlocReq (S C : Type) where
  | emit (s : S)
  | state
  | call (c : C)
  | start (c : C)
  | wait

/-- The answers; a call `c` that is awaited returns an `R c`. -/
@[reducible] def BlocReq.Ans {S C : Type} (R : C → Type) : BlocReq S C → Type
  | .emit _ => Unit
  | .state => S
  | .call c => R c
  | .start _ => Unit
  | .wait => Unit

/-- An asynchronous function of a bloc. -/
abbrev Handler (S C : Type) (R : C → Type) (E α : Type) :=
  Prog (BlocReq S C) (BlocReq.Ans R) E α

/-- The state of a bloc, all it has been told to emit, and the calls that
were started and not awaited. -/
structure Bloc (S C : Type) where
  state : S
  emitted : List S := []
  started : List C := []

namespace Bloc

variable {S C : Type}

/-- The bloc after it has been told to emit `s`. -/
def emit (b : Bloc S C) (s : S) : Bloc S C :=
  { b with state := s, emitted := b.emitted ++ [s] }

/-- The bloc after call `c` has been started. -/
def start (b : Bloc S C) (c : C) : Bloc S C := { b with started := b.started ++ [c] }

@[simp] theorem emit_state (b : Bloc S C) (s : S) : (b.emit s).state = s := rfl

@[simp] theorem emit_emitted (b : Bloc S C) (s : S) :
    (b.emit s).emitted = b.emitted ++ [s] := rfl

end Bloc

namespace Handler

variable {S C : Type} {R : C → Type} {E α : Type}

def emit (s : S) : Handler S C R E Unit := Prog.await (BlocReq.emit s)

/-- `state`. -/
def state : Handler S C R E S := Prog.await BlocReq.state

/-- `await c`. -/
def call (c : C) : Handler S C R E (R c) := Prog.await (BlocReq.call c)

/-- `c`, not awaited. -/
def start (c : C) : Handler S C R E Unit := Prog.await (BlocReq.start c)

/-- `await` of what needs no answer: a delay, or a value that is there. -/
def wait : Handler S C R E Unit := Prog.await BlocReq.wait

/-- `await t`, where `t` makes calls of its own. -/
def ofProg : Prog C R E α → Handler S C R E α
  | .ret a => .ret a
  | .raise e => .raise e
  | .ask c k => .ask (.call c) fun r => ofProg (k r)

/-- Calls that are awaited one after the other. -/
def calls : List C → Handler S C (fun _ => Unit) E Unit
  | [] => .ret ()
  | c :: cs => (call (R := fun _ => Unit) c).bind fun _ => calls cs

/-- Run up to the next await. -/
def settle : Handler S C R E α → Bloc S C → Bloc S C × Handler S C R E α
  | .ask (.emit s) k, b => settle (k (.ok ())) (b.emit s)
  | .ask .state k, b => settle (k (.ok b.state)) b
  | .ask (.start c) k, b => settle (k (.ok ())) (b.start c)
  | t, b => (b, t)

/-- A handler that awaits, after its answer. `r` answers every call it may
be waiting for. -/
def answer? (r : (c : C) → Except E (R c)) : Handler S C R E α → Option (Handler S C R E α)
  | .ask (.call c) k => some (k (r c))
  | .ask .wait k => some (k (.ok ()))
  | _ => none

/-- If its calls are answered by `r`, the handler ends by emitting `s`,
whatever states it reads on the way. -/
def Delivers (r : (c : C) → R c) (s : S) : Handler S C R E Unit → Prop
  | .ask (.emit s') k => Delivers r s (k (.ok ())) ∨ k (.ok ()) = .ret () ∧ s' = s
  | .ask .state k => ∀ s', Delivers r s (k (.ok s'))
  | .ask (.start _) k => Delivers r s (k (.ok ()))
  | .ask (.call c) k => Delivers r s (k (.ok (r c)))
  | .ask .wait k => Delivers r s (k (.ok ()))
  | _ => False

theorem Delivers.not_ended {r : (c : C) → R c} {s : S} {t : Handler S C R E Unit}
    (h : t.Delivers r s) : ¬ t.Ended := by
  cases t with
  | ret a => exact h.elim
  | raise e => exact h.elim
  | ask q k => exact id

/-- A handler that delivers `s` goes on until it awaits, or emits `s` and
ends. -/
theorem Delivers.settle {r : (c : C) → R c} {s : S} {t : Handler S C R E Unit}
    (h : t.Delivers r s) (b : Bloc S C) :
    (t.settle b).2.Delivers r s ∨ (t.settle b).2 = .ret () ∧ (t.settle b).1.state = s := by
  induction t generalizing b with
  | ret a => exact h.elim
  | raise e => exact h.elim
  | ask q k ih =>
    cases q with
    | emit s' =>
      rcases h with h | ⟨hend, rfl⟩
      · exact ih _ h _
      · right
        simp [Handler.settle, hend]
    | state => exact ih _ (h b.state) _
    | start c => exact ih _ h _
    | call c => exact .inl h
    | wait => exact .inl h

theorem Delivers.answer {r : (c : C) → R c} {s : S} {t t' : Handler S C R E Unit}
    (h : t.Delivers r s) (ht : t.answer? (fun c => .ok (r c)) = some t') :
    t'.Delivers r s := by
  cases t with
  | ret a => exact h.elim
  | raise e => exact h.elim
  | ask q k =>
    cases q with
    | call c => cases ht; exact h
    | wait => cases ht; exact h
    | _ => cases ht

/-! ## A handler without its bloc -/

section Effect

variable {Q : Type} {A : Q → Type} {β : Type}

/-- `t`, and then `f` with what has become of it. -/
def attempt : Prog Q A E β → (Except E β → Prog Q A E α) → Prog Q A E α
  | .ret b, f => f (.ok b)
  | .raise e, f => f (.error e)
  | .ask q k, f => .ask q fun r => attempt (k r) f

/-- What is left of a handler that starts in state `s` when the states it
emits go nowhere: the calls it awaits, as `task` makes them. -/
def effect (task : (c : C) → Prog Q A E (R c)) : Handler S C R E α → S → Prog Q A E α
  | .ret a, _ => .ret a
  | .raise e, _ => .raise e
  | .ask (.emit s') k, _ => effect task (k (.ok ())) s'
  | .ask .state k, s => effect task (k (.ok s)) s
  | .ask (.call c) k, s => attempt (task c) fun r => effect task (k r) s
  | .ask (.start _) k, s => effect task (k (.ok ())) s
  | .ask .wait k, s => effect task (k (.ok ())) s

variable (task : (c : C) → Prog Q A E (R c))

@[simp] theorem effect_ret (a : α) (s : S) :
    effect task (.ret a : Handler S C R E α) s = .ret a := rfl

@[simp] theorem effect_emit_bind (s s' : S) (f : Unit → Handler S C R E α) :
    effect task ((emit s').bind f) s = effect task (f ()) s' := rfl

@[simp] theorem effect_emit (s s' : S) :
    effect task (emit s' : Handler S C R E Unit) s = .ret () := rfl

@[simp] theorem effect_wait_bind (s : S) (f : Unit → Handler S C R E α) :
    effect task (wait.bind f) s = effect task (f ()) s := rfl

@[simp] theorem effect_call_bind (c : C) (s : S) (f : R c → Handler S C R E α) :
    effect task ((call c).bind f) s = (task c).bind fun a => effect task (f a) s := by
  show attempt (task c) (fun r => effect task ((Prog.ofExcept r).bind f) s) = _
  induction task c with
  | ret a => rfl
  | raise e => rfl
  | ask q k ih => simp only [attempt, Prog.bind, ih]

@[simp] theorem effect_call (c : C) (s : S) :
    effect task (call c : Handler S C R E (R c)) s = task c := by
  have h := effect_call_bind task c s (α := R c) .ret
  rwa [Prog.bind_ret, show (fun a => effect task (.ret a : Handler S C R E (R c)) s) = .ret from rfl,
    Prog.bind_ret] at h

/-- A loop of calls is the loop of what they do. -/
theorem effect_forM_bind {D : Type} {task : (d : D) → Prog Q A E Unit} (f : β → D)
    (xs : List β) (s : S) (rest : Unit → Handler S D (fun _ => Unit) E α) :
    effect task ((xs.forM fun x => (call (f x) : Handler S D (fun _ => Unit) E Unit)).bind rest)
        s =
      (xs.forM fun x => task (f x)).bind fun u => effect task (rest u) s := by
  induction xs with
  | nil => rfl
  | cons x xs ih =>
    simp only [List.forM, Prog.bind_eq, Prog.bind_assoc, effect_call_bind, ih]

end Effect

end Handler

/-- A bloc with the handlers of the events added to it, ended ones
included, and the number of the handler that moved last. -/
structure Running (S C Ev : Type) (R : C → Type) (E : Type) where
  bloc : Bloc S C
  handlers : List (Ev × Handler S C R E Unit) := []
  mover : Nat := 0

/-- An event is added, or handler number `i` is answered. -/
inductive Move (Ev C : Type) (R : C → Type) (E : Type) where
  | add (event : Ev)
  | answer (i : Nat) (r : (c : C) → Except E (R c))

namespace Running

variable {S C Ev : Type} {R : C → Type} {E : Type}

/-- Handler `i` of event `event` runs from `t` to its next await. -/
def run (b : Running S C Ev R E) (i : Nat) (event : Ev) (t : Handler S C R E Unit)
    (put : Ev × Handler S C R E Unit → List (Ev × Handler S C R E Unit)) :
    Running S C Ev R E where
  bloc := (t.settle b.bloc).1
  handlers := put (event, (t.settle b.bloc).2)
  mover := i

/-- The handler of a new event starts. -/
def add (handler : Ev → Handler S C R E Unit) (event : Ev) (b : Running S C Ev R E) :
    Running S C Ev R E :=
  b.run b.handlers.length event (handler event) fun x => b.handlers ++ [x]

/-- Handler `i` goes on with its answer. -/
def answer (i : Nat) (r : (c : C) → Except E (R c)) (b : Running S C Ev R E) :
    Option (Running S C Ev R E) :=
  match b.handlers[i]? with
  | some (event, t) => (t.answer? r).map fun t' => b.run i event t' (b.handlers.set i)
  | none => none

def step (handler : Ev → Handler S C R E Unit) (b : Running S C Ev R E) :
    Move Ev C R E → Option (Running S C Ev R E)
  | .add event => some (b.add handler event)
  | .answer i r => b.answer i r

/-- Every handler has ended. -/
def Ended (b : Running S C Ev R E) : Prop := ∀ x ∈ b.handlers, x.2.Ended

instance (b : Running S C Ev R E) : Decidable b.Ended :=
  inferInstanceAs (Decidable (∀ x ∈ b.handlers, x.2.Ended))

/-! ## Responses that arrive in any order -/

/-- An event is added, or what handler number `i` awaits arrives. -/
inductive Arrival (Ev : Type) where
  | add (event : Ev)
  | arrive (i : Nat)

variable (handler : Ev → Handler S C R E Unit) (resp : Nat → (c : C) → R c)

/-- The bloc after an arrival, when the calls of handler `i` are answered by
`resp i`. -/
def stepBy (b : Running S C Ev R E) : Arrival Ev → Option (Running S C Ev R E)
  | .add event => b.step handler (.add event)
  | .arrive i => b.step handler (.answer i fun c => .ok (resp i c))

variable {handler resp} {v : Nat → Ev → S}

/-- Every handler under way delivers what it should, and the one that moved
last has delivered if it has ended. -/
structure Sound (resp : Nat → (c : C) → R c) (v : Nat → Ev → S) (b : Running S C Ev R E) :
    Prop where
  delivers : ∀ (i : Nat) (x : Ev × Handler S C R E Unit), b.handlers[i]? = some x →
    x.2.Ended ∨ x.2.Delivers (resp i) (v i x.1)
  moved : b.handlers ≠ [] →
    ∃ x : Ev × Handler S C R E Unit, b.handlers[b.mover]? = some x ∧
      (x.2.Ended → b.bloc.state = v b.mover x.1)

/-- A handler that delivers what it should runs to its next await. -/
theorem Sound.run {b : Running S C Ev R E} (hb : b.Sound resp v) {i : Nat} {event : Ev}
    {t : Handler S C R E Unit} (ht : t.Delivers (resp i) (v i event))
    {put : Ev × Handler S C R E Unit → List (Ev × Handler S C R E Unit)}
    (hself : ∀ x, (put x)[i]? = some x)
    (hother : ∀ x j, j ≠ i → (put x)[j]? = b.handlers[j]?) :
    (b.run i event t put).Sound resp v := by
  have hsettle := ht.settle b.bloc
  refine ⟨?_, fun _ => ⟨_, hself _, ?_⟩⟩
  · intro j x hx
    by_cases hj : j = i
    · subst hj
      have hx' : some (event, (t.settle b.bloc).2) = some x := (hself _).symm.trans hx
      cases hx'
      rcases hsettle with hdel | ⟨hend, -⟩
      · exact .inr hdel
      · rw [hend]
        exact .inl trivial
    · exact hb.delivers j x ((hother _ j hj).symm.trans hx)
  · intro hend
    rcases hsettle with hdel | ⟨-, hstate⟩
    · exact absurd hend hdel.not_ended
    · exact hstate

theorem Sound.stepBy {b b' : Running S C Ev R E} (hb : b.Sound resp v)
    (hv : ∀ i event, (handler event).Delivers (resp i) (v i event)) {m : Arrival Ev}
    (h : b.stepBy handler resp m = some b') : b'.Sound resp v := by
  cases m with
  | add event =>
    cases h
    refine hb.run (hv _ event) (fun x => by simp) ?_
    intro x j hj
    rcases Nat.lt_or_gt_of_ne hj with hlt | hgt
    · exact List.getElem?_append_left hlt
    · rw [List.getElem?_eq_none (by simp; omega), List.getElem?_eq_none (by omega)]
  | arrive i =>
    simp only [Running.stepBy, step, answer] at h
    split at h
    · next event t hi =>
      obtain ⟨t', ht', rfl⟩ := Option.map_eq_some_iff.mp h
      have hlt : i < b.handlers.length := (List.getElem?_eq_some_iff.mp hi).1
      have hdel : t.Delivers (resp i) (v i event) := by
        rcases hb.delivers i _ hi with hend | hdel
        · cases t <;> simp [Handler.answer?, Prog.Ended] at ht' hend
        · exact hdel
      refine hb.run (hdel.answer ht') (fun x => by simp [hlt]) ?_
      intro x j hj
      exact List.getElem?_set_ne (Ne.symm hj)
    · cases h

/-- When all handlers have ended, the state is what the handler that moved
last has delivered. -/
theorem state_of_ended {s : S} {ms : List (Arrival Ev)} {b : Running S C Ev R E}
    (hv : ∀ i event, (handler event).Delivers (resp i) (v i event))
    (h : Events.replay (stepBy handler resp) Events.free ⟨{ state := s }, [], 0⟩ ms = some b)
    (hend : b.Ended) (hne : b.handlers ≠ []) :
    ∃ x, b.handlers[b.mover]? = some x ∧ b.bloc.state = v b.mover x.1 := by
  have hinit : Sound resp v (⟨{ state := s }, [], 0⟩ : Running S C Ev R E) := by
    refine ⟨fun i x hx => ?_, fun hnil => absurd rfl hnil⟩
    simp at hx
  have hsound : b.Sound resp v :=
    Events.replay_invariant h hinit fun _ _ _ hb _ hstep => hb.stepBy hv hstep
  obtain ⟨x, hx, hstate⟩ := hsound.moved hne
  exact ⟨x, hx, hstate (hend x (List.mem_of_getElem? hx))⟩

/-- The event an arrival adds. -/
def Arrival.event? : Arrival Ev → Option Ev
  | .add event => some event
  | .arrive _ => none

/-- The events added, in order. -/
def added (ms : List (Arrival Ev)) : List Ev := ms.filterMap Arrival.event?

/-- The number of the handler that moves last. -/
def lastMover (ms : List (Arrival Ev)) : Nat :=
  match ms.getLast? with
  | some (.arrive i) => i
  | _ => (added ms).length - 1

/-- What handler `i` is to deliver. -/
def due (v : Nat → Ev → S) (ms : List (Arrival Ev)) (i : Nat) : Option S :=
  (added ms)[i]?.map (v i)

/-- The state is what the handler of the event added last is to deliver. -/
def LatestWins (v : Nat → Ev → S) (ms : List (Arrival Ev)) (s : S) : Prop :=
  some s = due v ms ((added ms).length - 1)

theorem stepBy_handlers {b b' : Running S C Ev R E} {m : Arrival Ev}
    (h : b.stepBy handler resp m = some b') :
    b'.handlers.map Prod.fst = b.handlers.map Prod.fst ++ m.event?.toList := by
  cases m with
  | add event =>
    cases h
    simp [add, Running.run, Arrival.event?]
  | arrive i =>
    simp only [Running.stepBy, step, answer] at h
    split at h
    · next event t hi =>
      obtain ⟨t', -, rfl⟩ := Option.map_eq_some_iff.mp h
      obtain ⟨hlt, hget⟩ := List.getElem?_eq_some_iff.mp hi
      have hself : (b.handlers.map Prod.fst).set i event = b.handlers.map Prod.fst := by
        apply List.ext_getElem (by simp)
        intro j hj hj'
        by_cases hij : i = j
        · subst hij
          simp [hget]
        · simp [hij]
      simp [Running.run, List.map_set, Arrival.event?, hself]
    · cases h

/-- The handlers are those of the events added. -/
theorem replay_handlers {b b' : Running S C Ev R E} {ms : List (Arrival Ev)}
    (h : Events.replay (stepBy handler resp) Events.free b ms = some b') :
    b'.handlers.map Prod.fst = b.handlers.map Prod.fst ++ added ms := by
  induction ms generalizing b with
  | nil =>
    cases h
    simp [added]
  | cons m ms ih =>
    obtain ⟨-, b₁, hstep, hrest⟩ := Events.replay_cons_eq_some.mp h
    rw [ih hrest, stepBy_handlers hstep, List.append_assoc]
    cases m <;> simp [added, Arrival.event?, List.filterMap_cons]

theorem replay_mover {b b' : Running S C Ev R E} {ms : List (Arrival Ev)}
    (h : Events.replay (stepBy handler resp) Events.free b ms = some b') (hne : ms ≠ []) :
    (∃ i, ms.getLast? = some (.arrive i) ∧ b'.mover = i) ∨
      (∃ event, ms.getLast? = some (.add event)) ∧ b'.mover = b'.handlers.length - 1 := by
  induction ms generalizing b with
  | nil => exact absurd rfl hne
  | cons m ms ih =>
    obtain ⟨-, b₁, hstep, hrest⟩ := Events.replay_cons_eq_some.mp h
    cases ms with
    | cons m' ms =>
      rw [List.getLast?_cons_cons]
      exact ih hrest (List.cons_ne_nil m' ms)
    | nil =>
      cases hrest
      cases m with
      | add event =>
        cases hstep
        exact .inr ⟨⟨event, rfl⟩, by simp [add, Running.run]⟩
      | arrive i =>
        simp only [Running.stepBy, step, answer] at hstep
        split at hstep
        · obtain ⟨t', -, rfl⟩ := Option.map_eq_some_iff.mp hstep
          exact .inl ⟨i, rfl, rfl⟩
        · cases hstep

/-- The latest event wins just when the handler that moves last is its own,
or delivers the same. -/
theorem latestWins_iff {s : S} {ms : List (Arrival Ev)} {b : Running S C Ev R E}
    (hv : ∀ i event, (handler event).Delivers (resp i) (v i event))
    (h : Events.replay (stepBy handler resp) Events.free ⟨{ state := s }, [], 0⟩ ms = some b)
    (hend : b.Ended) (hne : added ms ≠ []) :
    LatestWins v ms b.bloc.state ↔
      due v ms (lastMover ms) = due v ms ((added ms).length - 1) := by
  have hevents : b.handlers.map Prod.fst = added ms := replay_handlers h
  have hlen : b.handlers.length = (added ms).length := by
    rw [← hevents, List.length_map]
  have hms : ms ≠ [] := by
    rintro rfl
    exact hne rfl
  have hmover : b.mover = lastMover ms := by
    unfold lastMover
    rcases replay_mover h hms with ⟨i, hlast, hi⟩ | ⟨⟨event, hlast⟩, hi⟩
    · rw [hlast, hi]
    · rw [hlast, hi, hlen]
  have hhandlers : b.handlers ≠ [] := by
    intro hnil
    rw [hnil] at hevents
    exact hne hevents.symm
  obtain ⟨x, hx, hstate⟩ := state_of_ended hv h hend hhandlers
  have hdue : due v ms (lastMover ms) = some b.bloc.state := by
    rw [due, ← hmover, ← hevents, List.getElem?_map, hx, hstate]
    rfl
  rw [LatestWins, hdue]

end Running

/-! ## A handler alone -/

section Alone

open Prog

variable {S C : Type} {R : C → Type} {E α β : Type}

/-- The server of a handler that runs alone: call number `n` is answered by
`π n`. -/
def alone (π : Nat → (c : C) → Except E (R c)) (q : BlocReq S C) (nb : Nat × Bloc S C) :
    Except E (BlocReq.Ans R q) × (Nat × Bloc S C) :=
  match q with
  | .emit s => (.ok (), nb.1, nb.2.emit s)
  | .state => (.ok nb.2.state, nb)
  | .call c => (π nb.1 c, nb.1 + 1, nb.2)
  | .start c => (.ok (), nb.1, nb.2.start c)
  | .wait => (.ok (), nb)

namespace Handler

/-- The request neither emits nor starts anything. -/
def OnlyAsks : BlocReq S C → Prop
  | .emit _ => False
  | .start _ => False
  | _ => True

/-- The handler emits nothing and starts nothing. -/
def Silent (t : Handler S C R E α) : Prop := t.Respects (fun _ _ => True) OnlyAsks

theorem silent_call (c : C) : (call c : Handler S C R E (R c)).Silent :=
  respects_await (q := BlocReq.call c) trivial

theorem silent_calls (cs : List C) :
    (calls cs : Handler S C (fun _ => Unit) E Unit).Silent := by
  induction cs with
  | nil => trivial
  | cons c cs ih => exact (silent_call (R := fun _ => Unit) c).bind fun _ => ih

variable {π : Nat → (c : C) → Except E (R c)}

/-- A silent handler leaves the bloc as it is. -/
theorem Silent.eval {t : Handler S C R E α} (h : t.Silent) (nb : Nat × Bloc S C) :
    (Prog.eval (alone π) t nb).2.2 = nb.2 := by
  induction t generalizing nb with
  | ret a => rfl
  | raise e => rfl
  | ask q k ih =>
    rw [eval_ask]
    cases q with
    | emit s => exact h.1.elim
    | start c => exact h.1.elim
    | state => exact ih _ (h.2 _ trivial) _
    | call c => exact ih _ (h.2 _ trivial) _
    | wait => exact ih _ (h.2 _ trivial) _

@[simp] theorem eval_emit (s : S) (nb : Nat × Bloc S C) :
    Prog.eval (alone π) (emit s : Handler S C R E Unit) nb =
      (.ok (), nb.1, nb.2.emit s) := by
  rw [emit, eval_await, alone]

@[simp] theorem eval_wait (nb : Nat × Bloc S C) :
    Prog.eval (alone π) (wait : Handler S C R E Unit) nb = (.ok (), nb) := by
  rw [wait, eval_await, alone]

@[simp] theorem eval_call (c : C) (nb : Nat × Bloc S C) :
    Prog.eval (alone π) (call c : Handler S C R E (R c)) nb = (π nb.1 c, nb.1 + 1, nb.2) := by
  rw [call, eval_await, alone]

/-- All that the handler emits when it runs alone from state `s`. -/
def emissions (π : Nat → (c : C) → Except E (R c)) (t : Handler S C R E Unit) (s : S) : List S :=
  (Prog.eval (alone π) t (0, { state := s })).2.2.emitted

/-- The handler has emitted something, and the last of it is `loading`. -/
def LeftIn (loading : S → Prop) (π : Nat → (c : C) → Except E (R c))
    (t : Handler S C R E Unit) (s : S) : Prop :=
  ∃ x ∈ (emissions π t s).getLast?, loading x

variable {loading : S → Prop}

/-- A handler that emits a loading state and nothing else is left in it. -/
theorem leftIn_of_silent {l : S} (hl : loading l) {body : Handler S C R E Unit}
    (hbody : body.Silent) (s : S) :
    LeftIn loading π ((emit l).bind fun _ => body) s := by
  unfold LeftIn emissions
  rw [eval_bind, eval_emit]
  simp [hbody.eval, hl]

/-- A handler that emits a loading state, and another one when its body has
returned, is left in the first just when the body throws. -/
theorem leftIn_iff {l : S} (hl : loading l) {body : Handler S C R E α} (hbody : body.Silent)
    {rest : α → Handler S C R E Unit}
    (hrest : ∀ a nb, ∃ x ∈ (Prog.eval (alone π) (rest a) nb).2.2.emitted.getLast?, ¬ loading x)
    (s : S) :
    LeftIn loading π ((emit l).bind fun _ => body.bind rest) s ↔
      ¬ (Prog.eval (alone π) body (0, { state := l, emitted := [l] })).1.isOk := by
  unfold LeftIn emissions
  rw [eval_bind, eval_emit]
  simp only [eval_bind, Bloc.emit, List.nil_append]
  have hsame := hbody.eval (π := π) (0, { state := l, emitted := [l] })
  cases hr : Prog.eval (alone π) body (0, { state := l, emitted := [l] }) with
  | mk r nb =>
    cases r with
    | ok a =>
      obtain ⟨x, hx, hnot⟩ := hrest a nb
      simp only [Except.isOk, Except.toBool, not_true_eq_false, iff_false]
      rintro ⟨y, hy, hload⟩
      rw [Option.mem_def.mp hx] at hy
      cases hy
      exact hnot hload
    | error e =>
      rw [hr] at hsame
      have hsame : nb.2 = { state := l, emitted := [l] } := hsame
      simp [hsame, hl, Except.isOk, Except.toBool]

/-- Calls in a row return just when each of them does. -/
theorem eval_calls {π : Nat → (c : C) → Except E Unit} (cs : List C)
    (nb : Nat × Bloc S C) :
    (Prog.eval (alone π) (calls cs) nb).1.isOk ↔
      ∀ i c, cs[i]? = some c → (π (nb.1 + i) c).isOk := by
  induction cs generalizing nb with
  | nil => simp [calls, Except.isOk, Except.toBool]
  | cons c cs ih =>
    rw [calls, eval_bind, eval_call]
    cases hr : π nb.1 c with
    | error e =>
      refine iff_of_false (by simp [Except.isOk, Except.toBool]) fun h => ?_
      have h0 := h 0 c rfl
      simp [hr, Except.isOk, Except.toBool] at h0
    | ok u =>
      rw [ih]
      constructor
      · intro h i d hd
        cases i with
        | zero =>
          cases hd
          simp [hr, Except.isOk, Except.toBool]
        | succ i =>
          have hi := h i d hd
          rwa [Nat.add_assoc, Nat.add_comm 1 i] at hi
      · intro h i d hd
        have hi := h (i + 1) d hd
        rwa [Nat.add_comm i 1, ← Nat.add_assoc] at hi

/-- Call number `i` of `cs` returns, for every `i`. -/
def Answered {C E : Type} (π : Nat → C → Except E Unit) (cs : List C) : Prop :=
  ∀ i c, cs[i]? = some c → (π i c).isOk

@[simp] theorem answered_singleton {C E : Type} {π : Nat → C → Except E Unit} {c : C} :
    Answered π [c] ↔ (π 0 c).isOk := by
  constructor
  · exact fun h => h 0 c rfl
  · intro h i d hd
    cases i with
    | zero =>
      cases hd
      exact h
    | succ i => simp at hd

/-- A handler that emits a loading state, makes calls in a row and emits
another state is left in the first unless every call returns. -/
theorem not_leftIn_iff_answered {π : Nat → (c : C) → Except E Unit} {l : S} (hl : loading l)
    {t : Handler S C (fun _ => Unit) E Unit} (cs : List C)
    {rest : Unit → Handler S C (fun _ => Unit) E Unit}
    (ht : t = (emit l).bind fun _ => (calls cs).bind rest)
    (hrest : ∀ u nb, ∃ x ∈ (Prog.eval (alone π) (rest u) nb).2.2.emitted.getLast?, ¬ loading x)
    (s : S) : ¬ LeftIn loading π t s ↔ Answered π cs := by
  rw [ht, leftIn_iff hl (silent_calls cs) hrest, not_not, eval_calls]
  simp only [Nat.zero_add, Answered]

end Handler

end Alone

end GottaGo.Async
