/-
GottaGo.Firestore.Replay — when an array in a document is the history of
its array transforms.

Clients change an array in two ways. A transform (`arrayUnion`,
`arrayRemove`) changes whatever the array is at that moment. A write that
replaces the field, or the whole document, puts there an array of its
own. `replay` applies the transforms of a log, in order, to the array
the log began with.

`Replayed` says that the array is just that. A transform keeps it, and so
does every other write that carries the array it finds
(`Write.Carries`), among the writes that clients make (`Write.Plain`).
`replayed_run_iff` is the two together, over runs.
-/
import GottaGo.Async.Pool
import GottaGo.Firestore.Footprint

namespace GottaGo.Firestore

open GottaGo.Async

/-! ## Transforms -/

/-- What a field write makes of an array. -/
def FieldWrite.onArray (w : FieldWrite) (vs : List Value) : List Value :=
  elems (some (w.apply (some (.arr vs))))

/-- A field write sees the old value only as an array. -/
theorem FieldWrite.elems_apply (w : FieldWrite) (old : Option Value) :
    elems (some (w.apply old)) = w.onArray (elems old) := by
  cases w <;> rfl

variable {P L : Type} [DecidableEq P]

/-- The transform that a write makes on field `f` of document `p`. -/
def Write.transform? (p : P) (f : String) : Write P → Option FieldWrite
  | .update q [(g, .arrayUnion vs)] =>
    if q = p ∧ g = f then some (.arrayUnion vs) else none
  | .update q [(g, .arrayRemove vs)] =>
    if q = p ∧ g = f then some (.arrayRemove vs) else none
  | _ => none

/-- The array `vs` after the transforms of a log. -/
def replay (p : P) (f : String) (log : List (Write P)) (vs : List Value) : List Value :=
  (log.filterMap (Write.transform? p f)).foldl (fun vs w => w.onArray vs) vs

theorem replay_concat (p : P) (f : String) (log : List (Write P)) (w : Write P)
    (vs : List Value) :
    replay p f (log ++ [w]) vs =
      match w.transform? p f with
      | some t => t.onArray (replay p f log vs)
      | none => replay p f log vs := by
  rw [replay, List.filterMap_append]
  cases h : w.transform? p f <;> simp [h, replay]

/-! ## Writes -/

/-- Plain values for the named fields. -/
def putAll (fs : List (String × Value)) : List (String × FieldWrite) :=
  fs.map fun f => (f.1, .put f.2)

/-- Plain values are no transform. -/
theorem transform?_putAll (p q : P) (f : String) (fs : List (String × Value)) :
    (Write.update q (putAll fs)).transform? p f = none := by
  rcases fs with _ | ⟨⟨g, v⟩, _ | ⟨_, _⟩⟩ <;> rfl

/-- The writes that clients make: a whole document, its deletion, one
transform, or plain values for distinct fields. -/
inductive Write.Plain : Write P → Prop
  | set (p : P) (d : Doc) : Plain (.set p d)
  | delete (p : P) : Plain (.delete p)
  | arrayUnion (p : P) (f : String) (vs : List Value) :
      Plain (.update p [(f, .arrayUnion vs)])
  | arrayRemove (p : P) (f : String) (vs : List Value) :
      Plain (.update p [(f, .arrayRemove vs)])
  | fields (p : P) (fs : List (String × Value)) :
      (fs.map Prod.fst).Nodup → Plain (.update p (putAll fs))

/-- If the write replaces the array in field `f` of document `p`, it puts
there the array that `s` has there. -/
def Write.Carries (s : Store P) (p : P) (f : String) : Write P → Prop
  | .set q d => q = p → elems (d.get? f) = s.elemsAt p f
  | .update q fs => q = p → ∀ v, (f, .put v) ∈ fs → elems (some v) = s.elemsAt p f
  | .delete _ => True

/-- What an update of one field does to the arrays of its document. -/
theorem Write.elemsAt_update_single {s s' : Store P} {q : P} {g : String} {w : FieldWrite}
    (hw : (Write.update q [(g, w)]).apply s = some s') (f : String) :
    s'.elemsAt q f = if f = g then w.onArray (s.elemsAt q f) else s.elemsAt q f := by
  rw [Store.elemsAt, Write.field_update_single hw]
  by_cases hg : f = g
  · subst hg
    rw [if_pos ⟨rfl, rfl⟩, if_pos rfl]
    exact FieldWrite.elems_apply _ _
  · rw [if_neg fun hn => hg hn.2, if_neg hg]
    rfl

/-- The array after a write that carries it. -/
theorem Write.Carries.elemsAt {s s' : Store P} {w : Write P} {p : P} {f : String}
    (h : w.Carries s p f) (hw : w.apply s = some s') (hplain : w.Plain)
    (hdel : w ≠ .delete p) :
    s'.elemsAt p f =
      match w.transform? p f with
      | some t => t.onArray (s.elemsAt p f)
      | none => s.elemsAt p f := by
  by_cases hp : p = w.path
  · subst hp
    cases hplain with
    | set q d =>
      cases hw
      rw [Write.path, Store.elemsAt_eq (s.get_put_self q d)]
      exact h rfl
    | delete q => exact absurd rfl hdel
    | arrayUnion q g vs =>
      rw [Write.path, Write.elemsAt_update_single hw, Write.transform?]
      by_cases hg : f = g
      · subst hg
        rw [if_pos rfl, if_pos ⟨rfl, rfl⟩]
      · rw [if_neg hg, if_neg fun hn => hg hn.2.symm]
    | arrayRemove q g vs =>
      rw [Write.path, Write.elemsAt_update_single hw, Write.transform?]
      by_cases hg : f = g
      · subst hg
        rw [if_pos rfl, if_pos ⟨rfl, rfl⟩]
      · rw [if_neg hg, if_neg fun hn => hg hn.2.symm]
    | fields q fs hnd =>
      obtain ⟨d, hd, rfl⟩ := Write.apply_update_eq_some hw
      have hkeys : (putAll fs).map Prod.fst = fs.map Prod.fst := by
        simp [putAll, Function.comp_def]
      rw [Write.path, transform?_putAll, Store.elemsAt_eq (s.get_put_self q _)]
      by_cases hf : f ∈ fs.map Prod.fst
      · -- a field that is written holds what the write carries
        obtain ⟨⟨g, v⟩, hmem, rfl⟩ := List.mem_map.mp hf
        have hput : (g, FieldWrite.put v) ∈ putAll fs :=
          List.mem_map.mpr ⟨(g, v), hmem, rfl⟩
        rw [Doc.get?_update_of_mem d (hkeys ▸ hnd) hput]
        exact h rfl v hput
      · rw [Doc.get?_update_of_notMem d (hkeys ▸ hf), Store.elemsAt_eq hd]
  · have hnone : w.transform? p f = none := by
      cases hplain with
      | set q d => rfl
      | delete q => rfl
      | arrayUnion q g vs => exact if_neg fun hn => hp hn.1.symm
      | arrayRemove q g vs => exact if_neg fun hn => hp hn.1.symm
      | fields q fs hnd => exact transform?_putAll p q f fs
    rw [hnone, Store.elemsAt_congr (w.get_of_ne hw hp)]

/-- A write that leaves the array as a transform would, or as it was,
carries it. -/
theorem Write.Carries.of_elemsAt {s s' : Store P} {w : Write P} {p : P} {f : String}
    (hw : w.apply s = some s') (hplain : w.Plain)
    (h : s'.elemsAt p f =
      match w.transform? p f with
      | some t => t.onArray (s.elemsAt p f)
      | none => s.elemsAt p f) : w.Carries s p f := by
  cases hplain with
  | set q d =>
    rintro rfl
    cases hw
    rw [Store.elemsAt_eq (s.get_put_self q d)] at h
    exact h
  | delete q => trivial
  | arrayUnion q g vs =>
    intro _ v hv
    cases List.mem_singleton.mp hv
  | arrayRemove q g vs =>
    intro _ v hv
    cases List.mem_singleton.mp hv
  | fields q fs hnd =>
    rintro rfl v hv
    obtain ⟨d, hd, rfl⟩ := Write.apply_update_eq_some hw
    have hkeys : (putAll fs).map Prod.fst = fs.map Prod.fst := by
      simp [putAll, Function.comp_def]
    rw [transform?_putAll, Store.elemsAt_eq (s.get_put_self q _),
      Doc.get?_update_of_mem d (hkeys ▸ hnd) hv] at h
    exact h

/-- Whatever the write puts in field `g` of document `p` is `o`. -/
def Write.Puts (p : P) (g : String) (o : Option Value) : Write P → Prop
  | .set q d => q = p → d.get? g = o
  | .update q fs => q = p → ∀ w, (g, w) ∈ fs → ∃ v, w = .put v ∧ some v = o
  | .delete q => q ≠ p

/-- A field keeps the value that every write puts there. -/
theorem Write.Puts.field {s s' : Store P} {w : Write P} {p : P} {g : String}
    {o : Option Value} (h : w.Puts p g o) (hw : w.apply s = some s')
    (hplain : w.Plain) (hs : s.field p g = o) : s'.field p g = o := by
  by_cases hp : p = w.path
  · subst hp
    cases hplain with
    | set q d =>
      cases hw
      rw [Write.path, Store.field_eq (s.get_put_self q d)]
      exact h rfl
    | delete q => exact absurd rfl h
    | arrayUnion q f vs =>
      rw [Write.field_update_single hw]
      split
      · next hg =>
        obtain ⟨v, hv, -⟩ := h rfl (.arrayUnion vs) (by simp [hg.2])
        cases hv
      · exact hs
    | arrayRemove q f vs =>
      rw [Write.field_update_single hw]
      split
      · next hg =>
        obtain ⟨v, hv, -⟩ := h rfl (.arrayRemove vs) (by simp [hg.2])
        cases hv
      · exact hs
    | fields q fs hnd =>
      obtain ⟨d, hd, rfl⟩ := Write.apply_update_eq_some hw
      have hkeys : (putAll fs).map Prod.fst = fs.map Prod.fst := by
        simp [putAll, Function.comp_def]
      rw [Write.path, Store.field_eq (s.get_put_self q _)]
      by_cases hg : g ∈ fs.map Prod.fst
      · obtain ⟨⟨g, v⟩, hmem, rfl⟩ := List.mem_map.mp hg
        have hput : (g, FieldWrite.put v) ∈ putAll fs :=
          List.mem_map.mpr ⟨(g, v), hmem, rfl⟩
        obtain ⟨v', hv', ho⟩ := h rfl _ hput
        cases hv'
        rw [Doc.get?_update_of_mem d (hkeys ▸ hnd) hput]
        exact ho
      · rw [Doc.get?_update_of_notMem d (hkeys ▸ hg), ← Store.field_eq hd]
        exact hs
  · rw [Store.field_congr (w.get_of_ne hw hp)]
    exact hs

/-! ## Runs -/

/-- The array in field `f` of document `p` is `vs` with the transforms so
far. -/
def Replayed (p : P) (f : String) (vs : List Value) (st : State P L) : Prop :=
  st.store.elemsAt p f = replay p f st.log vs

/-- An answer to a request; a write that succeeds carries the array in
field `f` of document `p`. -/
def Carrying (p : P) (f : String) (q : Req P L) (st : State P L)
    (r : Except Err (Ans q)) (st' : State P L) : Prop :=
  Answered q st r st' ∧
    ∀ w, q = .write w → (∃ a, r = .ok a) → w.Carries st.store p f

/-- What a client is told when field `g` of document `p` is always `o`. -/
def Told (p : P) (g : String) (o : Option Value) :
    (q : Req P L) → Except Err (Ans q) → Prop
  | .get q, r => q = p → ∀ snap, r = .ok snap → snap.bind (Doc.get? · g) = o
  | _, _ => True

/-- If all writes put `o` in a field that holds `o`, it keeps holding it,
and no client is told otherwise. -/
theorem told_step {B : L → Prop} {p : P} {g : String} {o : Option Value} {q : Req P L}
    {st st' : State P L} {r : Except Err (Ans q)} (hs : st.store.field p g = o)
    (hq : Asks (fun w => w.Plain ∧ w.Puts p g o) B q) (hans : Answered q st r st') :
    Told p g o q r ∧ st'.store.field p g = o := by
  constructor
  · cases q with
    | get q =>
      rintro rfl snap rfl
      obtain ⟨o', ho⟩ := hans
      simp only [serve] at ho
      split at ho
      · cases ho
      · cases ho
        exact hs
    | _ => trivial
  · rcases hans.cases with ⟨hstore, -, -⟩ | ⟨w, s', rfl, hw, rfl, -⟩
    · rw [hstore]
      exact hs
    · obtain ⟨hplain, hputs⟩ := hq
      exact hputs.field hw hplain hs

/-- Of a plain write that succeeds: it keeps the array replayed just when
it carries it. -/
theorem Replayed.commit_iff {p : P} {f : String} {vs : List Value} {st : State P L}
    {w : Write P} {s' : Store P} (h : Replayed p f vs st)
    (hw : w.apply st.store = some s') (hplain : w.Plain) (hdel : w ≠ .delete p) :
    Replayed p f vs (st.commit w s') ↔ w.Carries st.store p f := by
  have heq : Replayed p f vs (st.commit w s') ↔
      s'.elemsAt p f =
        match w.transform? p f with
        | some t => t.onArray (st.store.elemsAt p f)
        | none => st.store.elemsAt p f := by
    rw [Replayed, State.commit_store, State.commit_log, replay_concat, h]
  rw [heq]
  exact ⟨Write.Carries.of_elemsAt hw hplain, fun hc => hc.elemsAt hw hplain hdel⟩

/-- An answer keeps the array replayed just when it is a carrying one. -/
theorem Replayed.step_iff {B : L → Prop} {p : P} {f : String} {vs : List Value} {q : Req P L}
    {st st' : State P L} {r : Except Err (Ans q)} (h : Replayed p f vs st)
    (hans : Answered q st r st') (hq : Asks (fun w => w.Plain ∧ w ≠ .delete p) B q) :
    Replayed p f vs st' ↔ Carrying p f q st r st' := by
  rcases hans.cases with ⟨hstore, hlog, hfail⟩ | ⟨w, s', rfl, hw, rfl, hok⟩
  · rw [Replayed, hstore, hlog]
    exact ⟨fun _ => ⟨hans, fun w hw hok => absurd hok (hfail w hw)⟩, fun _ => h⟩
  · obtain ⟨hplain, hdel⟩ := hq
    rw [h.commit_iff hw hplain hdel]
    constructor
    · intro hc
      refine ⟨hans, fun w' hw' _ => ?_⟩
      cases hw'
      exact hc
    · intro hc
      exact hc.2 w rfl hok

section Pool

open Pool

variable {p : P} {f : String} {K : State P L → Prop}
  {rely : (q : Req P L) → Except Err (Ans q) → Prop}
  {W : Write P → Prop} {B : L → Prop} {start : State P L → State P L → Fire P L Unit → Prop}

/-- The invariant of the runs below: the array is replayed, `K` holds, and
the calls keep to their footprint. -/
structure Editing (p : P) (f : String) (vs : List Value) (K : State P L → Prop)
    (rely : (q : Req P L) → Except Err (Ans q) → Prop) (W : Write P → Prop)
    (B : L → Prop) (d : Pool (State P L) (Fire P L Unit)) : Prop where
  replayed : Replayed p f vs d.state
  also : K d.state
  footprint : ∀ t ∈ d.threads, FootprintIf rely W B t

/-- A step keeps `Editing` if it leaves the array replayed. -/
theorem Editing.step {vs : List Value} {d d' : Pool (State P L) (Fire P L Unit)}
    (hstart : ∀ st st' t, start st st' t → st' = st ∧ FootprintIf rely W B t)
    (hK : ∀ q st r st', K st → Asks W B q → Answered q st r st' → rely q r ∧ K st')
    (h : Editing p f vs K rely W B d) (hs : Step start (Prog.Step Answered) d d')
    (hd' : Replayed p f vs d'.state) : Editing p f vs K rely W B d' := by
  rcases hs.respects (fun _ _ _ ht => (hstart _ _ _ ht).2) h.footprint with
    ⟨t, ht, hts⟩ | ⟨q, r, hq, hans, hts⟩
  · exact ⟨hd', (hstart _ _ t ht).1 ▸ h.also, hts⟩
  · obtain ⟨hrely, hK'⟩ := hK q _ r _ h.also hq hans
    exact ⟨hd', hK', hts hrely⟩

/-- The steps that leave the array replayed are the carrying steps. -/
theorem Editing.step_iff {vs : List Value} {d d' : Pool (State P L) (Fire P L Unit)}
    (hstart : ∀ st st' t, start st st' t → st' = st ∧ FootprintIf rely W B t)
    (hW : ∀ w, W w → w.Plain ∧ w ≠ .delete p) (h : Editing p f vs K rely W B d) :
    (Step start (Prog.Step Answered) d d' ∧ Replayed p f vs d'.state) ↔
      Step start (Prog.Step (Carrying p f)) d d' := by
  have hplain : ∀ q : Req P L, Asks W B q → Asks (fun w => w.Plain ∧ w ≠ .delete p) B q :=
    fun q hq => hq.mono hW
  have hfoot := h.footprint
  constructor
  · intro hx
    obtain ⟨hs, hd'⟩ := hx
    cases hs with
    | start ts ht => exact .start ts ht
    | @adv st st' t t' pre post ht =>
      have hft := hfoot t (List.mem_append_right _ List.mem_cons_self)
      refine .adv pre post (hft.step_mono ht fun q r hq hans => ?_)
      exact (h.replayed.step_iff hans (hplain q hq)).mp hd'
  · intro hs
    cases hs with
    | start ts ht =>
      obtain ⟨rfl, -⟩ := hstart _ _ _ ht
      exact ⟨.start ts ht, h.replayed⟩
    | @adv st st' t t' pre post ht =>
      have hft := hfoot t (List.mem_append_right _ List.mem_cons_self)
      obtain ⟨q, r, hq, hans, -⟩ := hft.step ht
      refine ⟨.adv pre post (hft.step_mono ht fun q r hq hans => hans.1), ?_⟩
      exact (h.replayed.step_iff hans.1 (hplain q hq)).mpr hans

/-- A run leaves the array replayed in every state it enters just when
every write of the run carries the array. -/
theorem replayed_run_iff (rely : (q : Req P L) → Except Err (Ans q) → Prop)
    (B : L → Prop)
    (hstart : ∀ st st' t, start st st' t → st' = st ∧ FootprintIf rely W B t)
    (hW : ∀ w, W w → w.Plain ∧ w ≠ .delete p)
    (hK : ∀ q st r st', K st → Asks W B q → Answered q st r st' → rely q r ∧ K st')
    {s : Store P} {c : Pool (State P L) (Fire P L Unit)} (hs : K { store := s }) :
    Reach (fun d => Replayed p f (s.elemsAt p f) d.state ∧ K d.state) start
        (Prog.Step Answered) ⟨{ store := s }, []⟩ c ↔
      Run start (Prog.Step (Carrying p f)) ⟨{ store := s }, []⟩ c := by
  have h0 : Editing p f (s.elemsAt p f) K rely W B
      (⟨{ store := s }, []⟩ : Pool (State P L) (Fire P L Unit)) :=
    ⟨rfl, hs, fun _ ht => by cases ht⟩
  constructor
  · intro hrun
    refine (hrun.simulates id (J := Editing p f (s.elemsAt p f) K rely W B) ?_ h0).2
    intro d d' hd hstep hok
    exact ⟨hd.step hstart hK hstep hok.1,
      .inr ⟨(hd.step_iff hstart hW).mp ⟨hstep, hok.1⟩, trivial⟩⟩
  · intro hrun
    refine (hrun.simulates id (J := Editing p f (s.elemsAt p f) K rely W B) ?_ h0).2
    intro d d' hd hstep _
    obtain ⟨hstep', hd'⟩ := (hd.step_iff hstart hW).mpr hstep
    have hedit := hd.step hstart hK hstep' hd'
    exact ⟨hedit, .inr ⟨hstep', hd', hedit.also⟩⟩

end Pool

end GottaGo.Firestore
