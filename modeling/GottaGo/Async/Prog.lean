/-
GottaGo.Async.Prog — asynchronous functions as trees of awaited
requests.

An `async` function runs without interruption from one `await` to the
next. `Prog` is that shape: it ends with a value, ends with an
exception, or awaits one request and continues with the answer, which
is a value or an exception thrown at the `await`. Nothing here says what
a request does. A server gives the meaning:

* `eval` runs a whole program against a server, one request after the
  other (a call that nothing else interleaves with);
* `Step` is one request of one program (a call that other calls may
  overtake between two awaits; see `Async/Pool.lean`).

`Respects` bounds what a program may ever ask for, given what it may
ever be told. It is closed under every program former below, so a bound
on a long function is read off its text.
-/
import Mathlib.Tactic.Common

namespace GottaGo.Async

/-- An asynchronous computation over requests `Q`, answers `A q` and
exceptions `E`. -/
inductive Prog (Q : Type) (A : Q → Type) (E α : Type) where
  | ret (a : α)
  | raise (e : E)
  | ask (q : Q) (k : Except E (A q) → Prog Q A E α)

namespace Prog

variable {Q : Type} {A : Q → Type} {E α β σ : Type}

/-- Sequencing: an exception skips the rest. -/
def bind : Prog Q A E α → (α → Prog Q A E β) → Prog Q A E β
  | .ret a, f => f a
  | .raise e, _ => .raise e
  | .ask q k, f => .ask q fun r => (k r).bind f

instance : Monad (Prog Q A E) where
  pure := .ret
  bind := bind

/-- `try t catch (e) { h e }`. -/
def tryCatch : Prog Q A E α → (E → Prog Q A E α) → Prog Q A E α
  | .ret a, _ => .ret a
  | .raise e, h => h e
  | .ask q k, h => .ask q fun r => (k r).tryCatch h

/-- An outcome that is already known. -/
def ofExcept : Except E α → Prog Q A E α
  | .ok a => .ret a
  | .error e => .raise e

/-- `await q`. -/
def await (q : Q) : Prog Q A E (A q) := .ask q ofExcept

/-- `await t` with the value thrown away. -/
def void (t : Prog Q A E α) : Prog Q A E Unit := t.bind fun _ => .ret ()

/-- The program has ended, with a value or with an exception. -/
def Ended : Prog Q A E α → Prop
  | .ask _ _ => False
  | _ => True

instance (t : Prog Q A E α) : Decidable t.Ended :=
  match t with
  | .ret _ => isTrue trivial
  | .raise _ => isTrue trivial
  | .ask _ _ => isFalse id

@[simp] theorem pure_eq (a : α) : (pure a : Prog Q A E α) = .ret a := rfl

@[simp] theorem bind_eq (t : Prog Q A E α) (f : α → Prog Q A E β) :
    t >>= f = t.bind f := rfl

theorem bind_assoc {γ : Type} (t : Prog Q A E α) (f : α → Prog Q A E β)
    (g : β → Prog Q A E γ) : (t.bind f).bind g = t.bind fun a => (f a).bind g := by
  induction t with
  | ret a => rfl
  | raise e => rfl
  | ask q k ih => simp only [bind, ih]

@[simp] theorem bind_ret (t : Prog Q A E α) : t.bind .ret = t := by
  induction t with
  | ret a => rfl
  | raise e => rfl
  | ask q k ih => simp only [bind, ih]

/-! ## Running a whole program -/

/-- Run `t` to its end; `srv` answers every request in turn. -/
def eval (srv : (q : Q) → σ → Except E (A q) × σ) :
    Prog Q A E α → σ → Except E α × σ
  | .ret a, s => (.ok a, s)
  | .raise e, s => (.error e, s)
  | .ask q k, s => eval srv (k (srv q s).1) (srv q s).2

section Eval

variable (srv : (q : Q) → σ → Except E (A q) × σ)

@[simp] theorem eval_ret (a : α) (s : σ) :
    eval srv (.ret a) s = (.ok a, s) := rfl

@[simp] theorem eval_raise (e : E) (s : σ) :
    eval srv (.raise e : Prog Q A E α) s = (.error e, s) := rfl

theorem eval_ask (q : Q) (k : Except E (A q) → Prog Q A E α) (s : σ) :
    eval srv (.ask q k) s = eval srv (k (srv q s).1) (srv q s).2 := rfl

/-- A sequence runs its first part, and its second part only from a
value. -/
@[simp] theorem eval_bind (t : Prog Q A E α) (f : α → Prog Q A E β) (s : σ) :
    eval srv (t.bind f) s =
      match eval srv t s with
      | (.ok a, s') => eval srv (f a) s'
      | (.error e, s') => (.error e, s') := by
  induction t generalizing s with
  | ret a => rfl
  | raise e => rfl
  | ask q k ih => simp only [bind, eval_ask, ih]

/-- A handler runs from the state in which the body threw. -/
@[simp] theorem eval_tryCatch (t : Prog Q A E α) (h : E → Prog Q A E α)
    (s : σ) :
    eval srv (t.tryCatch h) s =
      match eval srv t s with
      | (.ok a, s') => (.ok a, s')
      | (.error e, s') => eval srv (h e) s' := by
  induction t generalizing s with
  | ret a => rfl
  | raise e => rfl
  | ask q k ih => simp only [tryCatch, eval_ask, ih]

@[simp] theorem eval_ofExcept (r : Except E α) (s : σ) :
    eval srv (ofExcept r) s = (r, s) := by
  cases r <;> rfl

@[simp] theorem eval_await (q : Q) (s : σ) :
    eval srv (await q) s = srv q s := by
  simp [await, eval_ask]

/-- What every answer keeps, a whole run keeps. -/
theorem eval_keeps {J : σ → Prop} (hsrv : ∀ q s, J s → J (srv q s).2) (t : Prog Q A E α) {s : σ}
    (hs : J s) : J (eval srv t s).2 := by
  induction t generalizing s with
  | ret a => exact hs
  | raise e => exact hs
  | ask q k ih => exact ih _ (hsrv q s hs)

/-- A loop over one element is its body. -/
theorem eval_forM_singleton (f : β → Prog Q A E Unit) (b : β) (s : σ) :
    eval srv ([b].forM f) s = eval srv (f b) s := by
  rw [List.forM, bind_eq, eval_bind]
  rcases eval srv (f b) s with ⟨e | ⟨⟩, s'⟩ <;> rfl

/-- The states that a run of `t` passes through, the first and the last
included. -/
def visits : Prog Q A E α → σ → List σ
  | .ret _, s => [s]
  | .raise _, s => [s]
  | .ask q k, s => s :: visits (k (srv q s).1) (srv q s).2

@[simp] theorem visits_ret (a : α) (s : σ) :
    visits srv (.ret a : Prog Q A E α) s = [s] := rfl

@[simp] theorem visits_raise (e : E) (s : σ) :
    visits srv (.raise e : Prog Q A E α) s = [s] := rfl

theorem visits_ask (q : Q) (k : Except E (A q) → Prog Q A E α) (s : σ) :
    visits srv (.ask q k) s = s :: visits srv (k (srv q s).1) (srv q s).2 := rfl

theorem mem_visits_self (t : Prog Q A E α) (s : σ) : s ∈ visits srv t s := by
  cases t with
  | ret a => exact List.mem_singleton.mpr rfl
  | raise e => exact List.mem_singleton.mpr rfl
  | ask q k => exact List.mem_cons_self

end Eval

/-! ## One request at a time -/

/-- One `await` of `t`: `ans q s r s'` says that request `q` may be
answered by `r` in state `s`, which leaves `s'`. -/
def Step (ans : (q : Q) → σ → Except E (A q) → σ → Prop)
    (s : σ) (t : Prog Q A E α) (s' : σ) (t' : Prog Q A E α) : Prop :=
  match t with
  | .ask q k => ∃ r, ans q s r s' ∧ t' = k r
  | _ => False

/-- The request the program waits for next. -/
def next? : Prog Q A E α → Option Q
  | .ask q _ => some q
  | _ => none

/-! ## What a program may ask for -/

/-- Told only answers that `rely` admits, the program only ever asks
what `guar` admits. -/
def Respects (rely : (q : Q) → Except E (A q) → Prop) (guar : Q → Prop) :
    Prog Q A E α → Prop
  | .ret _ => True
  | .raise _ => True
  | .ask q k => guar q ∧ ∀ r, rely q r → (k r).Respects rely guar

section Respects

variable {rely : (q : Q) → Except E (A q) → Prop} {guar : Q → Prop}

@[simp] theorem respects_ret (a : α) :
    (ret a : Prog Q A E α).Respects rely guar := trivial

@[simp] theorem respects_raise (e : E) :
    (raise e : Prog Q A E α).Respects rely guar := trivial

theorem Respects.bind {t : Prog Q A E α} {f : α → Prog Q A E β}
    (ht : t.Respects rely guar) (hf : ∀ a, (f a).Respects rely guar) :
    (t.bind f).Respects rely guar := by
  induction t with
  | ret a => exact hf a
  | raise e => trivial
  | ask q k ih => exact ⟨ht.1, fun r hr => ih r (ht.2 r hr)⟩

theorem Respects.tryCatch {t : Prog Q A E α} {h : E → Prog Q A E α}
    (ht : t.Respects rely guar) (hh : ∀ e, (h e).Respects rely guar) :
    (t.tryCatch h).Respects rely guar := by
  induction t with
  | ret a => trivial
  | raise e => exact hh e
  | ask q k ih => exact ⟨ht.1, fun r hr => ih r (ht.2 r hr)⟩

theorem respects_ofExcept (r : Except E α) :
    (ofExcept r : Prog Q A E α).Respects rely guar := by
  cases r <;> trivial

theorem respects_of_ended {t : Prog Q A E α} (h : t.Ended) : t.Respects rely guar := by
  cases t with
  | ret a => trivial
  | raise e => trivial
  | ask q k => exact h.elim

theorem respects_await {q : Q} (hq : guar q) :
    (await q : Prog Q A E (A q)).Respects rely guar :=
  ⟨hq, fun r _ => respects_ofExcept r⟩

/-- What follows an `await` may use what the answer is known to be. -/
theorem respects_await_bind {q : Q} {f : A q → Prog Q A E β} (hq : guar q)
    (hf : ∀ a, rely q (.ok a) → (f a).Respects rely guar) :
    ((await q).bind f).Respects rely guar := by
  refine ⟨hq, fun r hr => ?_⟩
  cases r with
  | ok a => exact hf a hr
  | error e => trivial

theorem Respects.void {t : Prog Q A E α} (ht : t.Respects rely guar) :
    t.void.Respects rely guar :=
  ht.bind fun _ => trivial

/-- A step keeps the bound, if its answer is one the bound relies on. -/
theorem Respects.step {ans : (q : Q) → σ → Except E (A q) → σ → Prop}
    {s s' : σ} {t t' : Prog Q A E α} (ht : t.Respects rely guar)
    (hstep : Step ans s t s' t') :
    ∃ q r, guar q ∧ ans q s r s' ∧ (rely q r → t'.Respects rely guar) := by
  cases t with
  | ret a => exact hstep.elim
  | raise e => exact hstep.elim
  | ask q k =>
    obtain ⟨r, hans, rfl⟩ := hstep
    exact ⟨q, r, ht.1, hans, fun hr => ht.2 r hr⟩

/-- A step of a bounded program may be read in another relation that
holds of what the program asks for. -/
theorem Respects.step_mono {ans ans' : (q : Q) → σ → Except E (A q) → σ → Prop}
    {s s' : σ} {t t' : Prog Q A E α} (ht : t.Respects rely guar)
    (hstep : Step ans s t s' t')
    (h : ∀ q r, guar q → ans q s r s' → ans' q s r s') : Step ans' s t s' t' := by
  cases t with
  | ret a => exact hstep.elim
  | raise e => exact hstep.elim
  | ask q k =>
    obtain ⟨r, hans, rfl⟩ := hstep
    exact ⟨r, h q r ht.1 hans, rfl⟩

end Respects

/-! ## What a program may return -/

/-- What is left of the program once its request has been answered. -/
def answer? (srv : (q : Q) → Except E (A q)) : Prog Q A E α → Option (Prog Q A E α)
  | .ask q k => some (k (srv q))
  | _ => none

/-- Whatever it is told, the program returns nothing but what `R` admits. -/
def Returns (R : α → Prop) : Prog Q A E α → Prop
  | .ret a => R a
  | .raise _ => True
  | .ask _ k => ∀ r, (k r).Returns R

section Returns

variable {R : α → Prop}

/-- What follows decides what is returned. -/
theorem returns_bind {t : Prog Q A E β} {f : β → Prog Q A E α}
    (hf : ∀ b, (f b).Returns R) : (t.bind f).Returns R := by
  induction t with
  | ret b => exact hf b
  | raise e => trivial
  | ask q k ih => exact fun r => ih r

theorem Returns.answer {srv : (q : Q) → Except E (A q)} {t t' : Prog Q A E α}
    (ht : t.Returns R) (h : t.answer? srv = some t') : t'.Returns R := by
  cases t with
  | ret a => cases h
  | raise e => cases h
  | ask q k =>
    cases h
    exact ht _

end Returns

/-! ## Requests that are always answered alike -/

/-- What the program comes to when `srv` answers its requests. -/
def result (srv : (q : Q) → Except E (A q)) : Prog Q A E α → Except E α
  | .ret a => .ok a
  | .raise e => .error e
  | .ask q k => (k (srv q)).result srv

section Result

variable {srv : (q : Q) → Except E (A q)}

@[simp] theorem result_ret (a : α) : (.ret a : Prog Q A E α).result srv = .ok a := rfl

@[simp] theorem result_raise (e : E) : (.raise e : Prog Q A E α).result srv = .error e := rfl

@[simp] theorem result_ofExcept (r : Except E α) :
    (ofExcept r : Prog Q A E α).result srv = r := by
  cases r <;> rfl

@[simp] theorem result_await (q : Q) : (await q : Prog Q A E (A q)).result srv = srv q :=
  result_ofExcept (srv q)

@[simp] theorem result_bind (t : Prog Q A E β) (f : β → Prog Q A E α) :
    (t.bind f).result srv =
      match t.result srv with
      | .ok b => (f b).result srv
      | .error e => .error e := by
  induction t with
  | ret b => rfl
  | raise e => rfl
  | ask q k ih => exact ih _

/-- An answer does not change what it comes to. -/
theorem result_answer {t t' : Prog Q A E α} (h : t.answer? srv = some t') :
    t'.result srv = t.result srv := by
  cases t with
  | ret a => cases h
  | raise e => cases h
  | ask q k =>
    cases h
    rfl

end Result

end Prog

end GottaGo.Async
