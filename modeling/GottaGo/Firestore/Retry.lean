/-
GottaGo.Firestore.Retry — a call that is cut off, and the call made again.

Writes are done one after the other, and each acts on one document. So
what a batch makes of the database is what its writes to each document
make of that document (`applyAll_eq_some_iff`), and a batch whose first
writes have been done already may be done again in full if that is so
document by document (`applyAll_retry`). It is so of a document that is
only set or deleted, since the last write decides, and of a document with
one write that repeats itself (`retryable_of`). All the field writes of
`FieldWrite` repeat themselves (`Doc.update_update`).

`interrupted ids n` is the server whose connection is lost once `n`
writes have been done. Whatever the program does with the errors it is
thrown from then on, it leaves behind the first writes of its
uninterrupted run and no others (`eval_interrupted`). `throwing ids n` is
the server that fails the one write.
-/
import GottaGo.Firestore.Client

namespace GottaGo.Firestore

open GottaGo.Async

/-! ## Writing again what has been written -/

/-- An array that has the elements is not extended by them. -/
theorem unionTo_of_subset {xs vs : List Value} (h : ∀ v ∈ vs, v ∈ xs) :
    unionTo xs vs = xs := by
  induction vs with
  | nil => rfl
  | cons v vs ih =>
    rw [List.forall_mem_cons] at h
    have hv : unionTo xs (v :: vs) = unionTo xs vs := by
      simp [unionTo, h.1]
    rw [hv, ih h.2]

/-- A field write finds nothing left to do where it has been done. -/
theorem FieldWrite.apply_apply (w : FieldWrite) (old : Option Value) :
    w.apply (some (w.apply old)) = w.apply old := by
  cases w with
  | put v => rfl
  | arrayUnion vs =>
    have hin : ∀ v ∈ vs, v ∈ unionTo (elems old) vs := by
      intro v hv
      exact mem_unionTo.mpr (.inr hv)
    simp [FieldWrite.apply, unionTo_of_subset hin]
  | arrayRemove vs => simp [FieldWrite.apply, removeFrom]

/-- Nor does an update that names each field once. -/
theorem Doc.update_update (d : Doc) {fs : List (String × FieldWrite)}
    (hnd : (fs.map Prod.fst).Nodup) : (d.update fs).update fs = d.update fs := by
  apply Finmap.ext_lookup
  intro f
  show ((d.update fs).update fs).get? f = (d.update fs).get? f
  by_cases hf : f ∈ fs.map Prod.fst
  · obtain ⟨⟨g, w⟩, hmem, rfl⟩ := List.mem_map.mp hf
    rw [Doc.get?_update_of_mem _ hnd hmem, Doc.get?_update_of_mem _ hnd hmem,
      FieldWrite.apply_apply]
  · rw [Doc.get?_update_of_notMem _ hf]

/-! ## What a write makes of its document -/

/-- There is nothing to delete where there is no document. -/
theorem Store.del_of_get_eq_none {P : Type} [DecidableEq P] {s : Store P} {p : P}
    (h : s.get p = none) : s.del p = s := by
  apply Store.ext_get
  intro q
  rw [Store.get_del]
  split
  · next hq => rw [hq, h]
  · rfl

namespace Write

variable {P : Type} [DecidableEq P]

/-- The document a write leaves, from the one it finds; `none` if the
write fails. -/
def act : Write P → Option Doc → Option (Option Doc)
  | .set _ d, _ => some (some d)
  | .update _ fs, old => old.map fun d => some (d.update fs)
  | .delete _, _ => some none

theorem apply_eq_some_iff {s s' : Store P} {w : Write P} :
    w.apply s = some s' ↔
      w.act (s.get w.path) = some (s'.get w.path) ∧
        ∀ q, q ≠ w.path → s'.get q = s.get q := by
  constructor
  · intro h
    refine ⟨?_, fun q hq => get_of_ne h hq⟩
    cases w with
    | set p d => cases h; simp [act, path]
    | update p fs =>
      obtain ⟨d, hd, rfl⟩ := apply_update_eq_some h
      simp [act, path, hd]
    | delete p => cases h; simp [act, path]
  · intro h
    obtain ⟨hself, hother⟩ := h
    -- the database the write leaves agrees with `s'` document by document
    have hsame : ∀ t : Store P, t.get w.path = s'.get w.path →
        (∀ q, q ≠ w.path → t.get q = s.get q) → t = s' := by
      intro t ht htother
      apply Store.ext_get
      intro q
      by_cases hq : q = w.path
      · rw [hq, ht]
      · rw [htother q hq, hother q hq]
    cases w with
    | set p d =>
      have hd : s'.get p = some d := (Option.some.inj hself).symm
      have hput : s.put p d = s' :=
        hsame _ (by simp [path, hd]) fun q hq => s.get_put_of_ne d hq
      rw [apply_set, hput]
    | update p fs =>
      obtain ⟨d, hd, hs'⟩ := Option.map_eq_some_iff.mp hself
      have hput : s.put p (d.update fs) = s' :=
        hsame _ (by simpa [path] using hs') fun q hq => s.get_put_of_ne _ hq
      have hd : s.get p = some d := hd
      rw [apply_update_of_get hd, hput]
    | delete p =>
      have hd : s'.get p = none := (Option.some.inj hself).symm
      have hdel : s.del p = s' :=
        hsame _ (by simp [path, hd]) fun q hq => s.get_del_of_ne hq
      rw [apply_delete, hdel]

/-- A write that may make a document where there was none. -/
def Creates : Write P → Bool
  | .set _ _ => true
  | _ => false

theorem get_eq_none_of_apply {s s' : Store P} {w : Write P} (h : w.apply s = some s')
    (hw : w.Creates = false) {q : P} (hq : s.get q = none) : s'.get q = none := by
  cases w with
  | set p d => cases hw
  | update p fs =>
    have hsome := get_update_isSome h q
    rw [hq] at hsome
    simpa using hsome
  | delete p =>
    cases h
    rw [Store.get_del, hq]
    simp

/-- A write that does not look at what it finds. -/
def Overwrites : Write P → Bool
  | .update _ _ => false
  | _ => true

/-- A write that may follow itself. -/
def Repeats (w : Write P) : Prop :=
  ∀ o o', w.act o = some o' → w.act o' = some o'

omit [DecidableEq P] in
theorem repeats_update {p : P} {fs : List (String × FieldWrite)}
    (hnd : (fs.map Prod.fst).Nodup) : (Write.update p fs).Repeats := by
  intro o o' h
  obtain ⟨d, -, rfl⟩ := Option.map_eq_some_iff.mp h
  simp [act, Doc.update_update d hnd]

omit [DecidableEq P] in
/-- What an overwriting write leaves does not depend on what it finds. -/
theorem act_of_overwrites {w : Write P} (h : w.Overwrites = true) :
    ∃ r, ∀ o, w.act o = some r := by
  cases w with
  | set p d => exact ⟨some d, fun _ => rfl⟩
  | update p fs => cases h
  | delete p => exact ⟨none, fun _ => rfl⟩

end Write

/-! ## Batches -/

section Batch

variable {P : Type} [DecidableEq P]

/-- The database after the writes, done in order; `none` if one fails. -/
def applyAll (s : Store P) (ws : List (Write P)) : Option (Store P) :=
  ws.foldlM Write.apply s

/-- What writes to one document leave of it. -/
def actAll (o : Option Doc) (ws : List (Write P)) : Option (Option Doc) :=
  ws.foldlM (fun o w => w.act o) o

/-- The writes of a batch to document `p`. -/
def writesTo (p : P) (ws : List (Write P)) : List (Write P) :=
  ws.filter fun w => w.path = p

@[simp] theorem applyAll_nil (s : Store P) : applyAll s [] = some s := rfl

theorem applyAll_cons (s : Store P) (w : Write P) (ws : List (Write P)) :
    applyAll s (w :: ws) = (w.apply s).bind fun s₁ => applyAll s₁ ws := rfl

theorem applyAll_append (s : Store P) (ws vs : List (Write P)) :
    applyAll s (ws ++ vs) = (applyAll s ws).bind fun s₁ => applyAll s₁ vs :=
  List.foldlM_append

theorem applyAll_concat {s s₁ : Store P} {ws : List (Write P)}
    (h : applyAll s ws = some s₁) (w : Write P) : applyAll s (ws ++ [w]) = w.apply s₁ := by
  rw [applyAll_append, h, Option.bind_some, applyAll_cons]
  cases w.apply s₁ <;> rfl

/-- A deletion at the end can always be done. -/
theorem isSome_applyAll_delete (s : Store P) (ws : List (Write P)) (p : P) :
    (applyAll s (ws ++ [.delete p])).isSome = (applyAll s ws).isSome := by
  rw [applyAll_append]
  cases applyAll s ws <;> rfl

omit [DecidableEq P] in
theorem actAll_cons (o : Option Doc) (w : Write P) (ws : List (Write P)) :
    actAll o (w :: ws) = (w.act o).bind fun o₁ => actAll o₁ ws := rfl

/-- A batch acts on each document by its writes to that document. -/
theorem applyAll_eq_some_iff {s s' : Store P} {ws : List (Write P)} :
    applyAll s ws = some s' ↔
      ∀ p, actAll (s.get p) (writesTo p ws) = some (s'.get p) := by
  induction ws generalizing s with
  | nil =>
    show some s = some s' ↔ ∀ p, some (s.get p) = some (s'.get p)
    constructor
    · intro h
      cases h
      exact fun _ => rfl
    · intro h
      rw [Store.ext_get fun p => Option.some.inj (h p)]
  | cons w ws ih =>
    have hself : writesTo w.path (w :: ws) = w :: writesTo w.path ws := by
      simp [writesTo]
    have hother : ∀ p, p ≠ w.path → writesTo p (w :: ws) = writesTo p ws := by
      intro p hp
      simp [writesTo, Ne.symm hp]
    constructor
    · intro h p
      obtain ⟨s₁, hs₁, hrest⟩ := Option.bind_eq_some_iff.mp h
      obtain ⟨hact, hframe⟩ := Write.apply_eq_some_iff.mp hs₁
      by_cases hp : p = w.path
      · subst hp
        rw [hself, actAll_cons, hact, Option.bind_some, ih.mp hrest]
      · rw [hother p hp, ← hframe p hp, ih.mp hrest]
    · intro h
      have hw := h w.path
      rw [hself, actAll_cons] at hw
      obtain ⟨o₁, hact, hrest⟩ := Option.bind_eq_some_iff.mp hw
      -- the first write can be done, since it can be done to its own document
      have happly : ∃ s₁, w.apply s = some s₁ := by
        cases w with
        | set p d => exact ⟨_, rfl⟩
        | update p fs =>
          obtain ⟨d, hd, -⟩ := Option.map_eq_some_iff.mp hact
          exact ⟨_, Write.apply_update_of_get hd⟩
        | delete p => exact ⟨_, rfl⟩
      obtain ⟨s₁, hs₁⟩ := happly
      obtain ⟨hact₁, hframe⟩ := Write.apply_eq_some_iff.mp hs₁
      rw [applyAll_cons, hs₁, Option.bind_some, ih]
      intro p
      by_cases hp : p = w.path
      · subst hp
        rw [hact] at hact₁
        rw [← Option.some.inj hact₁, hrest]
      · rw [hframe p hp, ← hother p hp, h p]

/-- Batches with the same writes to each document do the same. -/
theorem applyAll_congr {s : Store P} {ws vs : List (Write P)}
    (h : ∀ p, writesTo p ws = writesTo p vs) : applyAll s ws = applyAll s vs := by
  apply Option.ext
  intro s'
  simp only [applyAll_eq_some_iff, h]

/-- Overwriting writes can always be done. -/
theorem exists_applyAll {ws : List (Write P)} (h : ∀ w ∈ ws, w.Overwrites = true)
    (s : Store P) : ∃ s', applyAll s ws = some s' := by
  induction ws generalizing s with
  | nil => exact ⟨s, rfl⟩
  | cons w ws ih =>
    rw [List.forall_mem_cons] at h
    rw [applyAll_cons]
    cases w with
    | set p d => exact ih h.2 _
    | update p fs => simp [Write.Overwrites] at h
    | delete p => exact ih h.2 _

/-- Writes to one document that may be cut off anywhere and done again in
full. -/
def Settles (ws : List (Write P)) : Prop :=
  ∀ pre, pre <+: ws → ∀ o o₁ o', actAll o pre = some o₁ → actAll o ws = some o' →
    actAll o₁ ws = some o'

/-- A batch that may be cut off anywhere and done again in full. -/
def Retryable (ws : List (Write P)) : Prop := ∀ p, Settles (writesTo p ws)

/-- A retryable batch ends where it would have ended. -/
theorem applyAll_retry {s s' sk : Store P} {ws : List (Write P)} (h : Retryable ws)
    (hs : applyAll s ws = some s') {k : Nat} (hk : applyAll s (ws.take k) = some sk) :
    applyAll sk ws = some s' := by
  rw [applyAll_eq_some_iff] at hs hk ⊢
  intro p
  have hpre : writesTo p (ws.take k) <+: writesTo p ws := (ws.take_prefix k).filter _
  exact h p _ hpre _ _ _ (hk p) (hs p)

omit [DecidableEq P] in
/-- Of overwriting writes the last decides. -/
theorem actAll_overwrites {ws : List (Write P)} (hne : ws ≠ [])
    (h : ∀ w ∈ ws, w.Overwrites = true) : ∃ r, ∀ o, actAll o ws = some r := by
  induction ws with
  | nil => exact absurd rfl hne
  | cons w ws ih =>
    rw [List.forall_mem_cons] at h
    obtain ⟨r₁, hr₁⟩ := Write.act_of_overwrites h.1
    by_cases hws : ws = []
    · subst hws
      refine ⟨r₁, fun o => ?_⟩
      rw [actAll_cons, hr₁]
      rfl
    · obtain ⟨r, hr⟩ := ih hws h.2
      refine ⟨r, fun o => ?_⟩
      rw [actAll_cons, hr₁, Option.bind_some, hr]

omit [DecidableEq P] in
theorem settles_overwrites {ws : List (Write P)} (h : ∀ w ∈ ws, w.Overwrites = true) :
    Settles ws := by
  intro pre hpre o o₁ o' h₁ h'
  by_cases hws : ws = []
  · subst hws
    rw [List.prefix_nil.mp hpre] at h₁
    cases h₁
    exact h'
  · obtain ⟨r, hr⟩ := actAll_overwrites hws h
    rw [hr, ← hr o, h']

omit [DecidableEq P] in
theorem settles_singleton {w : Write P} (h : w.Repeats) : Settles [w] := by
  intro pre hpre o o₁ o' h₁ h'
  have hw : ∀ x, actAll x [w] = w.act x := by
    intro x
    cases hx : w.act x <;> simp [actAll, hx]
  rcases List.prefix_cons_iff.mp hpre with rfl | ⟨rest, rfl, hrest⟩
  · cases h₁
    exact h'
  · rw [List.prefix_nil.mp hrest, h'] at h₁
    cases h₁
    rw [hw] at h' ⊢
    exact h _ _ h'

/-- A batch is retryable if each of its updates repeats itself and is its
only write to its document. -/
theorem retryable_of {ws : List (Write P)}
    (h : ∀ w ∈ ws, w.Overwrites = true ∨ w.Repeats ∧ writesTo w.path ws = [w]) :
    Retryable ws := by
  intro p
  by_cases hall : ∀ w ∈ writesTo p ws, w.Overwrites = true
  · exact settles_overwrites hall
  · obtain ⟨w, hw, hupdate⟩ : ∃ w ∈ writesTo p ws, ¬ w.Overwrites = true := by
      simpa using hall
    obtain ⟨hmem, hp⟩ := List.mem_filter.mp hw
    have hp : w.path = p := of_decide_eq_true hp
    obtain hover | ⟨hrep, honly⟩ := h w hmem
    · exact absurd hover hupdate
    · rw [← hp, honly]
      exact settles_singleton hrep

end Batch

/-! ## A connection that is lost -/

section Lost

open Prog

variable {P L : Type} [DecidableEq P] {α : Type}

/-- The server that never fails; the `i`-th id it draws is `ids i`. -/
def supplied (ids : Nat → String) (q : Req P L) (st : State P L) :
    Except Err (Ans q) × State P L :=
  serve { draw := ids st.drawn.length } q st

/-- The same server, which fails everything once `n` writes are done. -/
def interrupted (ids : Nat → String) (n : Nat) (q : Req P L) (st : State P L) :
    Except Err (Ans q) × State P L :=
  serve { fault := decide (n ≤ st.log.length), draw := ids st.drawn.length } q st

variable {ids : Nat → String}

/-- A request is a write that goes through, or leaves the documents and
the log. -/
theorem serve_cases (o : Outcome) (q : Req P L) (st : State P L) :
    ((serve o q st).2.store = st.store ∧ (serve o q st).2.log = st.log) ∨
      ∃ w s₁, o.fault = false ∧ q = .write w ∧ w.apply st.store = some s₁ ∧
        (serve o q st).2 = st.commit w s₁ := by
  have hans : Answered q st (serve o q st).1 (serve o q st).2 := ⟨o, rfl⟩
  obtain ⟨hs, hl, -⟩ | ⟨w, s₁, rfl, hw, hst, a, ha⟩ := hans.cases
  · exact .inl ⟨hs, hl⟩
  · right
    refine ⟨w, s₁, ?_, rfl, hw, hst⟩
    cases hf : o.fault with
    | false => rfl
    | true => simp [serve, hf] at ha

theorem eval_supplied_some {st : State P L} {w : Write P} {s₁ : Store P}
    (h : w.apply st.store = some s₁) :
    eval (supplied ids) (await (.write w)) st = (.ok (), st.commit w s₁) := by
  rw [eval_await]
  simp [supplied, serve, h]

theorem eval_supplied_none {st : State P L} {w : Write P} (h : w.apply st.store = none) :
    eval (supplied ids) (await (.write w)) st = (.error .firebase, st) := by
  rw [eval_await]
  simp [supplied, serve, h]

/-- The writes, awaited one after the other. -/
def inOrder : List (Write P) → Fire P L Unit
  | [] => .ret ()
  | w :: ws => (await (.write w)).bind fun _ => inOrder ws

omit [DecidableEq P] in
theorem inOrder_one (w : Write P) :
    (await (Req.write w) : Fire P L Unit) = inOrder [w] := (bind_ret _).symm

omit [DecidableEq P] in
theorem inOrder_two (w₁ w₂ : Write P) :
    (await (Req.write w₁)).bind (fun _ => await (Req.write w₂)) =
      (inOrder [w₁, w₂] : Fire P L Unit) := by
  rw [inOrder, ← inOrder_one]

/-- The writes are all made, or the call throws before it has made them
all. -/
theorem inOrder_cases (ids : Nat → String) (ws : List (Write P)) (st : State P L) :
    (∃ s' st', applyAll st.store ws = some s' ∧
        eval (supplied ids) (inOrder ws) st = (.ok (), st') ∧
        st'.store = s' ∧ st'.log = st.log ++ ws) ∨
      (applyAll st.store ws = none ∧
        ∃ st', eval (supplied ids) (inOrder ws) st = (.error .firebase, st') ∧
          st'.log.length < st.log.length + ws.length) := by
  induction ws generalizing st with
  | nil => exact .inl ⟨st.store, st, rfl, rfl, rfl, (List.append_nil _).symm⟩
  | cons w ws ih =>
    rw [applyAll_cons, inOrder, eval_bind]
    cases hw : w.apply st.store with
    | none =>
      rw [eval_supplied_none hw]
      refine .inr ⟨rfl, st, rfl, ?_⟩
      simp
    | some s₁ =>
      rw [eval_supplied_some hw]
      obtain ⟨s', st', hs', heval, hst', hlog⟩ | ⟨hnone, st', heval, hlen⟩ :=
        ih (st.commit w s₁)
      · refine .inl ⟨s', st', hs', heval, hst', ?_⟩
        rw [hlog, State.commit_log, List.append_assoc]
        rfl
      · refine .inr ⟨hnone, st', heval, ?_⟩
        rw [State.commit_log, List.length_append] at hlen
        simp at hlen ⊢
        omega

/-- Nothing changes after the connection is lost. -/
theorem eval_lost (t : Fire P L α) {n : Nat} (st : State P L) (hn : n ≤ st.log.length) :
    (eval (interrupted ids n) t st).2.store = st.store := by
  induction t generalizing st with
  | ret a => rfl
  | raise e => rfl
  | ask q k ih =>
    rw [eval_ask]
    obtain ⟨hs, hl⟩ | ⟨w, s₁, hf, -⟩ :=
      serve_cases { fault := decide (n ≤ st.log.length), draw := ids st.drawn.length } q st
    · have hlen : n ≤ (interrupted ids n q st).2.log.length := by
        rw [interrupted, hl]
        exact hn
      rw [ih _ _ hlen]
      exact hs
    · simp [hn] at hf

/-- While it lasts, the connection is no different. -/
theorem interrupted_eq {n : Nat} {q : Req P L} {st : State P L} (hn : st.log.length < n) :
    interrupted ids n q st = supplied ids q st := by
  have hf : decide (n ≤ st.log.length) = false := by simpa using hn
  rw [interrupted, hf, supplied]

/-- A call that loses its connection after `k` writes leaves the first `k`
writes that it would have made. -/
theorem eval_interrupted (ids : Nat → String) (t : Fire P L α) (st : State P L) :
    ∃ ws, (eval (supplied ids) t st).2.log = st.log ++ ws ∧
      applyAll st.store ws = some (eval (supplied ids) t st).2.store ∧
      ∀ k, applyAll st.store (ws.take k) =
        some (eval (interrupted ids (st.log.length + k)) t st).2.store := by
  induction t generalizing st with
  | ret a => exact ⟨[], by simp, rfl, fun _ => by simp⟩
  | raise e => exact ⟨[], by simp, rfl, fun _ => by simp⟩
  | ask q k ih =>
    obtain ⟨ws, hlog, hall, hcut⟩ := ih (supplied ids q st).1 (supplied ids q st).2
    obtain ⟨hs, hl⟩ | ⟨w, s₁, -, rfl, hw, hst⟩ :=
      serve_cases { draw := ids st.drawn.length } q st
    · -- a read, or a write that cannot be done
      have hs : (supplied ids q st).2.store = st.store := hs
      have hl : (supplied ids q st).2.log = st.log := hl
      rw [hs] at hall hcut
      rw [hl] at hlog hcut
      refine ⟨ws, hlog, hall, fun j => ?_⟩
      cases j with
      | zero =>
        rw [eval_lost _ st (by omega)]
        simp
      | succ j =>
        rw [hcut, eval_ask, interrupted_eq (by omega)]
    · have hst : (supplied ids (.write w) st).2 = st.commit w s₁ := hst
      rw [hst] at hlog hall hcut
      refine ⟨w :: ws, ?_, ?_, fun j => ?_⟩
      · rw [eval_ask, hst, hlog, State.commit_log, List.append_assoc]
        rfl
      · rw [applyAll_cons, hw, Option.bind_some, eval_ask, hst]
        exact hall
      · cases j with
        | zero =>
          rw [eval_lost _ st (by omega)]
          rfl
        | succ j =>
          have hlen : st.log.length + (j + 1) = (st.commit w s₁).log.length + j := by
            simp
            omega
          rw [List.take_succ_cons, applyAll_cons, hw, Option.bind_some, eval_ask,
            interrupted_eq (by omega), hst, hlen]
          exact hcut j

/-! ## A write that throws -/

/-- The same server, in which write number `n` throws and changes nothing. -/
def throwing (ids : Nat → String) (n : Nat) (q : Req P L) (st : State P L) :
    Except Err (Ans q) × State P L :=
  serve { fault := q.isWrite && decide (st.log.length = n), draw := ids st.drawn.length } q st

theorem eval_throwing_fault (ids : Nat → String) (w : Write P) (st : State P L) :
    eval (throwing ids st.log.length) (await (.write w)) st = (.error .firebase, st) := by
  rw [eval_await]
  simp [throwing, serve, Req.isWrite]

theorem eval_throwing_some {st : State P L} {n : Nat} {w : Write P} {s₁ : Store P}
    (hn : st.log.length ≠ n) (h : w.apply st.store = some s₁) :
    eval (throwing ids n) (await (.write w)) st = (.ok (), st.commit w s₁) := by
  rw [eval_await]
  simp [throwing, serve, Req.isWrite, hn, h]

/-- The writes before the one that throws are made, and the call throws. -/
theorem eval_throwing_inOrder (ids : Nat → String) {ws : List (Write P)} {k : Nat}
    (hk : k < ws.length) {st : State P L} {sk : Store P}
    (h : applyAll st.store (ws.take k) = some sk) :
    ∃ st', eval (throwing ids (st.log.length + k)) (inOrder ws) st = (.error .firebase, st') ∧
      st'.store = sk := by
  induction ws generalizing k st with
  | nil => simp at hk
  | cons w ws ih =>
    rw [inOrder, eval_bind]
    cases k with
    | zero =>
      cases h
      rw [Nat.add_zero, eval_throwing_fault]
      exact ⟨st, rfl, rfl⟩
    | succ k =>
      rw [List.take_succ_cons, applyAll_cons] at h
      obtain ⟨s₁, hs₁, hrest⟩ := Option.bind_eq_some_iff.mp h
      have hlen : st.log.length + (k + 1) = (st.commit w s₁).log.length + k := by
        simp
        omega
      rw [eval_throwing_some (by omega) hs₁, hlen]
      exact ih (by simpa using hk) hrest

end Lost

end GottaGo.Firestore
