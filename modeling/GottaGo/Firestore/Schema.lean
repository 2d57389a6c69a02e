/-
GottaGo.Firestore.Schema — what the documents of a database are, kept by
every program that writes to it.

A schema says of every path which documents may stand there, and whether
one has to. The database checks nothing, so a schema holds only because
every program keeps to it, and a program often writes what it has read. So
the two are argued together: told only what the schema allows (`Vouched`), a
program writes only what leaves it so (`Keeps`).
`Conforms` says this of a program, and `Obeys.run` is the rule: what
conforming programs leave is of the schema, whatever the order of their
steps and whichever of their requests fail. That they write nothing but
what `W` admits is argued along with it, as what a program may write can
depend on what it has read; `Changed` says what a run can have done then.

A schema may speak of what has happened as well. `committed` is a set of
writes that contains those of the run: a program may count on the writes
it has seen return, and it answers for a write only if it is committed.
What the callback of a listener may count on is what `B` says of the
listener, which was so when it was opened.
-/
import GottaGo.Firestore.Footprint
import GottaGo.Async.Pool

namespace GottaGo.Firestore

open GottaGo.Async GottaGo.Async.Pool Prog

/-- What may stand at each path: a document, or none. -/
abbrev Schema (P : Type) := P → Option Doc → Prop

variable {P L α β : Type}

namespace Schema

variable (S : Schema P) (committed W : Write P → Prop) (B : L → Prop)

/-- The answer is what the schema allows, or that of a committed write. -/
def Vouched : (q : Req P L) → Except Err (Ans q) → Prop
  | .write w, .ok _ => committed w
  | .get p, .ok snap => S p snap
  | .snapshot p, .ok (some snap) => S p snap
  | _, _ => True

/-- The write leaves what the schema allows, where it found it. -/
def Keeps : Write P → Prop
  | .set p d => S p (some d)
  | .update p fs => ∀ d, S p (some d) → S p (some (d.update fs))
  | .delete p => S p none

/-- Told documents of the schema, the program writes only what `W` admits and
what keeps the schema, and its listeners are as `B` says. -/
abbrev Conforms (t : Fire P L α) : Prop :=
  FootprintIf (Vouched S committed) (fun w => W w ∧ (committed w → S.Keeps w)) B t

variable {S committed W B}

/-- What follows a write may count on it. -/
theorem Conforms.write_bind {w : Write P} {f : Unit → Fire P L β}
    (hw : W w ∧ (committed w → S.Keeps w))
    (hf : committed w → Conforms S committed W B (f ())) :
    Conforms S committed W B ((await (Req.write w)).bind f) :=
  respects_await_bind hw fun _ h => hf h

/-- What follows a `get` may count on what was there. -/
theorem Conforms.get_bind {p : P} {f : Option Doc → Fire P L β}
    (hf : ∀ snap, S p snap → Conforms S committed W B (f snap)) :
    Conforms S committed W B ((Fire.get p).bind f) :=
  FootprintIf.get_bind hf

theorem Conforms.forM {f : β → Fire P L Unit} {bs : List β}
    (h : ∀ b ∈ bs, Conforms S committed W B (f b)) : Conforms S committed W B (bs.forM f) := by
  induction bs with
  | nil => trivial
  | cons b bs ih =>
    rw [List.forall_mem_cons] at h
    exact h.1.bind fun _ => ih h.2

end Schema

/-! ## Databases of a schema -/

open Schema

/-- Every path holds what the schema allows. -/
def Typed (S : Schema P) [DecidableEq P] (s : Store P) : Prop := ∀ p, S p (s.get p)

namespace Typed

variable [DecidableEq P] {S : Schema P} {committed : Write P → Prop}

theorem empty (h : ∀ p, S p none) : Typed S (∅ : Store P) := by
  intro p
  rw [Store.get_empty]
  exact h p

/-- A write that keeps the schema keeps the database. -/
theorem apply {s s' : Store P} {w : Write P} (hs : Typed S s) (hw : S.Keeps w)
    (h : w.apply s = some s') : Typed S s' := by
  intro q
  by_cases hq : q = w.path
  · subst hq
    cases w with
    | set p d =>
      cases h
      rw [Write.path, Store.get_put_self]
      exact hw
    | update p fs =>
      obtain ⟨d, hd, rfl⟩ := Write.apply_update_eq_some h
      rw [Write.path, Store.get_put_self]
      exact hw d (hd ▸ hs p)
    | delete p =>
      cases h
      rw [Write.path, Store.get_del_self]
      exact hw
  · rw [Write.get_of_ne h hq]
    exact hs q

/-- What is read from a database of the schema is what the schema allows. -/
theorem told {q : Req P L} {st st' : State P L} {r : Except Err (Ans q)}
    (hs : Typed S st.store) (hlog : ∀ w ∈ st'.log, committed w)
    (h : Answered q st r st') : Vouched S committed q r := by
  cases q with
  | write w =>
    rcases h.write with ⟨rfl, rfl⟩ | ⟨s', -, rfl, rfl⟩
    · trivial
    · exact hlog w (by simp)
  | get p =>
    rcases h.get.1 with rfl | rfl
    · trivial
    · exact hs p
  | snapshot p =>
    obtain ⟨o, ho⟩ := h
    simp only [serve] at ho
    split at ho
    · cases ho
      trivial
    · cases ho
      exact hs p
  | listen p l => trivial
  | newDoc coll => trivial

end Typed

/-! ## Runs -/

variable [DecidableEq P]

/-- A database of the schema whose listeners are as `B` says. -/
structure Obeys (S : Schema P) (B : L → Prop) (st : State P L) : Prop where
  store : Typed S st.store
  listeners : ∀ x ∈ st.listeners, B x.2
  feed : ∀ x ∈ st.feed, B x.1

/-- Nothing is written, no listener is opened; snapshots may be handed over. -/
structure Untouched (st st' : State P L) : Prop where
  store : st'.store = st.store
  log : st'.log = st.log
  listeners : st'.listeners = st.listeners
  feed : st'.feed ⊆ st.feed

omit [DecidableEq P] in
theorem Untouched.refl (st : State P L) : Untouched st st :=
  ⟨rfl, rfl, rfl, List.Subset.refl _⟩

/-- From `st` to `st'`, only what `W` admits has been written: so every
schema that these writes keep has been kept. -/
structure Changed (W : Write P → Prop) (st st' : State P L) : Prop where
  log : ∀ w ∈ st'.log, w ∈ st.log ∨ W w
  keeps : ∀ S : Schema P, (∀ w, W w → S.Keeps w) → Typed S st.store → Typed S st'.store

/-- What has been written before is not taken back. -/
theorem log_of_answered {q : Req P L} {st st' : State P L} {r : Except Err (Ans q)}
    (h : Answered q st r st') : st.log ⊆ st'.log := by
  rcases h.cases with ⟨-, hlog, -⟩ | ⟨w, s', -, -, rfl, -⟩
  · rw [hlog]
    exact List.Subset.refl _
  · exact List.subset_append_left st.log [w]

/-- The log of a pool grows. -/
theorem log_of_step {start : State P L → State P L → Fire P L α → Prop}
    {c c' : Pool (State P L) (Fire P L α)}
    (hstart : ∀ st st' t, start st st' t → st'.log = st.log)
    (h : Step start (Prog.Step Answered) c c') : c.state.log ⊆ c'.state.log := by
  cases h with
  | start ts ht =>
    have hlog := hstart _ _ _ ht
    simp only [hlog, List.Subset.refl]
  | @adv s s' t t' pre post ht =>
    cases t with
    | ret a => exact ht.elim
    | raise e => exact ht.elim
    | ask q k =>
      obtain ⟨r, hans, -⟩ := ht
      exact log_of_answered hans

variable {S : Schema P} {committed W : Write P → Prop} {B : L → Prop}

namespace Changed

theorem refl (st : State P L) : Changed W st st :=
  ⟨fun _ hw => .inl hw, fun _ _ hs => hs⟩

theorem trans {st st' st'' : State P L} (h : Changed W st st') (h' : Changed W st' st'') :
    Changed W st st'' where
  log := by
    intro w hw
    rcases h'.log w hw with hw | hw
    · exact h.log w hw
    · exact .inr hw
  keeps := fun S hS hs => h'.keeps S hS (h.keeps S hS hs)

/-- Nothing has been written. -/
theorem of_eq {st st' : State P L} (hstore : st'.store = st.store)
    (hlog : st'.log = st.log) : Changed W st st' :=
  ⟨fun _ hw => .inl (hlog ▸ hw), fun _ _ hs => hstore ▸ hs⟩

/-- An answer to a request of a program that writes only what `W` admits. -/
theorem answered {q : Req P L} {st st' : State P L} {r : Except Err (Ans q)}
    (hq : Asks W B q) (h : Answered q st r st') : Changed W st st' := by
  rcases h.cases with ⟨hstore, hlog, -⟩ | ⟨w, s', rfl, hw, rfl, -⟩
  · exact .of_eq hstore hlog
  · refine ⟨fun v hv => ?_, fun S hS hs => hs.apply (hS w hq) hw⟩
    rcases List.mem_append.mp hv with hv | hv
    · exact .inl hv
    · exact .inr (List.mem_singleton.mp hv ▸ hq)

/-- What no such write touches stays. -/
theorem get_eq {st st' : State P L} (h : Changed W st st') {p : P}
    (hp : ∀ w, W w → w.path ≠ p) : st'.store.get p = st.store.get p := by
  refine h.keeps (fun q snap => q = p → snap = st.store.get p) (fun w hw => ?_)
    (fun q hq => by rw [hq]) p rfl
  cases w with
  | set q d => exact fun hq => absurd hq (hp _ hw)
  | update q fs => exact fun d _ hq => absurd hq (hp _ hw)
  | delete q => exact fun hq => absurd hq (hp _ hw)

end Changed

namespace Obeys

theorem untouched {st st' : State P L} (h : Obeys S B st) (hu : Untouched st st') :
    Obeys S B st' := by
  refine ⟨hu.store ▸ h.store, hu.listeners ▸ h.listeners, fun x hx => ?_⟩
  exact h.feed x (hu.feed hx)

/-- An answer to a request of a conforming program. -/
theorem answered {q : Req P L} {st st' : State P L} {r : Except Err (Ans q)}
    (h : Obeys S B st) (hlog : ∀ w ∈ st'.log, committed w)
    (hq : Asks (fun w => committed w → S.Keeps w) B q) (hans : Answered q st r st') :
    Obeys S B st' := by
  cases q with
  | write w =>
    rcases hans.write with ⟨-, rfl⟩ | ⟨s', hw, -, rfl⟩
    · exact h
    · refine ⟨h.store.apply (hq (hlog w (by simp))) hw, h.listeners, fun x hx => ?_⟩
      rcases List.mem_append.mp hx with hx | hx
      · exact h.feed x hx
      · -- A snapshot that is owed goes to a listener that is open.
        unfold State.owed at hx
        split at hx
        · cases hx
        · obtain ⟨y, hy, rfl⟩ := List.mem_map.mp hx
          exact h.listeners y (List.mem_filter.mp hy).1
  | get p => rw [hans.get.2]; exact h
  | snapshot p =>
    obtain ⟨o, ho⟩ := hans
    cases ho
    exact h
  | listen p l =>
    obtain ⟨o, ho⟩ := hans
    cases ho
    refine ⟨h.store, fun x hx => ?_, fun x hx => ?_⟩
    · rcases List.mem_append.mp hx with hx | hx
      · exact h.listeners x hx
      · obtain rfl := List.mem_singleton.mp hx
        exact hq
    · rcases List.mem_append.mp hx with hx | hx
      · exact h.feed x hx
      · obtain rfl := List.mem_singleton.mp hx
        exact hq
  | newDoc coll =>
    obtain ⟨o, ho⟩ := hans
    cases ho
    exact ⟨h.store, h.listeners, h.feed⟩

/-- A database that obeys, with programs that conform, is one after every
run, if what the run commits is committed; and the run has written only what
`W` admits. A program that starts on a database that obeys conforms. -/
theorem run {start : State P L → State P L → Fire P L α → Prop}
    {c c' : Pool (State P L) (Fire P L α)}
    (hstart : ∀ st st' t, start st st' t →
      Untouched st st' ∧ (Obeys S B st → Conforms S committed W B t))
    (h : Run start (Prog.Step Answered) c c') (hlog : ∀ w ∈ c'.state.log, committed w)
    (h0 : Obeys S B c.state) (hts : ∀ t ∈ c.threads, Conforms S committed W B t) :
    Obeys S B c'.state ∧ Changed W c.state c'.state := by
  -- The log grows, so what is committed at the end is so at every moment.
  have hinv : (∀ w ∈ c'.state.log, committed w) →
      Obeys S B c'.state ∧ Changed W c.state c'.state ∧
        ∀ t ∈ c'.threads, Conforms S committed W B t := by
    refine h.invariant (J := fun d => (∀ w ∈ d.state.log, committed w) →
      Obeys S B d.state ∧ Changed W c.state d.state ∧
        ∀ t ∈ d.threads, Conforms S committed W B t)
      (fun _ => ⟨h0, .refl _, hts⟩) ?_
    intro d d' ih hstep _ hd'
    have hsub := log_of_step (fun st st' t ht => (hstart st st' t ht).1.log) hstep
    obtain ⟨hobeys, hchanged, hconf⟩ := ih fun w hw => hd' w (hsub hw)
    cases hstep with
    | start ts ht =>
      obtain ⟨hu, ht'⟩ := hstart _ _ _ ht
      exact ⟨hobeys.untouched hu, hchanged.trans (.of_eq hu.store hu.log),
        List.forall_mem_cons.mpr ⟨ht' hobeys, hconf⟩⟩
    | @adv s s' t t' pre post ht =>
      obtain ⟨q, r, hq, hans, hr⟩ := (hconf t (by simp)).step ht
      refine ⟨hobeys.answered hd' (hq.mono fun _ hw => hw.2) hans,
        hchanged.trans (.answered (hq.mono fun _ hw => hw.1) hans), fun u hu => ?_⟩
      simp only [List.mem_append, List.mem_cons] at hu hconf
      rcases hu with hu | rfl | hu
      · exact hconf u (.inl hu)
      · exact hr (hobeys.store.told hd' hans)
      · exact hconf u (.inr (.inr hu))
  obtain ⟨hobeys, hchanged, -⟩ := hinv hlog
  exact ⟨hobeys, hchanged⟩

end Obeys

end GottaGo.Firestore
