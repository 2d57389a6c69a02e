/-
GottaGo.Rx.Operators — `combineLatestList`, `MergeStream` and `switchMap`.

`combineLatestList` listens to one stream per key, in order, and keeps
the latest value of each. A value of a stream replaces the one kept for
it; once every stream has emitted, each value lets out the list of the
latest values. A key that occurs twice has two subscriptions, which get
its values one after the other. An error of a stream is passed on and
changes nothing. No stream, no value.

`MergeStream` listens to one stream per key as well and passes everything
on as it comes.

`switchMap` listens to an outer stream, and for each of its values to a
new inner stream, which replaces the one before. An error of the outer
stream, or of the function that picks the inner one, is passed on and
leaves the inner stream as it is.

The state of a combination after any events is `after_opened`, what it
has let out last `getLast?_emits`, and every list it ever lets out
`emits_owned`. `values_emits_switchMap` says that since the last outer
value a switched stream is the inner stream from its beginning.
-/
import GottaGo.Rx.Machine
import Mathlib.Data.List.Induction

namespace GottaGo.Rx

variable {K V S A I O ε σ : Type}

/-! ## combineLatestList -/

/-- The streams listened to, each with the latest value it has emitted. -/
abbrev Latest (K V : Type) := List (K × Option V)

namespace Latest

/-- Nothing has been emitted yet. -/
def opened (ks : List K) : Latest K V := ks.map fun k => (k, none)

/-- The latest values, once every stream has emitted. -/
def combined : Latest K V → Option (List V)
  | [] => some []
  | (_, some v) :: l => (combined l).map (v :: ·)
  | (_, none) :: _ => none

theorem combined_eq_some {l : Latest K V} {vs : List V} :
    combined l = some vs ↔ l.map Prod.snd = vs.map some := by
  induction l generalizing vs with
  | nil => cases vs <;> simp [combined]
  | cons kv l ih =>
    obtain ⟨k, o⟩ := kv
    cases o with
    | none => cases vs <;> simp [combined]
    | some v =>
      cases vs with
      | nil => simp [combined]
      | cons w vs => simp [combined, ih, and_comm]

variable [DecidableEq K]

/-- `v` replaces what is kept for `k`. -/
def put (k : K) (v : V) (l : Latest K V) : Latest K V :=
  l.map fun kv => if kv.1 = k then (kv.1, some v) else kv

/-- What the subscriptions to `k` among `rest` let out when they get `v`,
one after the other; those of `seen` have had their turn. -/
def deliver (k : K) (v : V) (seen : Latest K V) : Latest K V → List (List V)
  | [] => []
  | (k', o) :: rest =>
    if k' = k then
      (combined (seen ++ (k', some v) :: rest)).toList ++
        deliver k v (seen ++ [(k', some v)]) rest
    else deliver k v (seen ++ [(k', o)]) rest

@[simp] theorem put_nil (k : K) (v : V) : put k v [] = [] := rfl

@[simp] theorem put_cons (k k' : K) (v : V) (o : Option V) (l : Latest K V) :
    put k v ((k', o) :: l) = (k', if k' = k then some v else o) :: put k v l := by
  by_cases h : k' = k <;> simp [put, h]

/-- The streams stay the same. -/
@[simp] theorem keys_put (k : K) (v : V) (l : Latest K V) :
    (put k v l).map Prod.fst = l.map Prod.fst := by
  induction l with
  | nil => rfl
  | cons kv l ih =>
    obtain ⟨k', o⟩ := kv
    simp [ih]

theorem put_of_notMem {k : K} {v : V} {l : Latest K V} (h : k ∉ l.map Prod.fst) :
    put k v l = l := by
  induction l with
  | nil => rfl
  | cons kv l ih =>
    obtain ⟨k', o⟩ := kv
    simp only [List.map_cons, List.mem_cons, not_or] at h
    simp [ih h.2, Ne.symm h.1]

/-- A stream nobody listens to lets nothing out. -/
theorem deliver_of_notMem {k : K} {v : V} {rest : Latest K V}
    (h : k ∉ rest.map Prod.fst) (seen : Latest K V) : deliver k v seen rest = [] := by
  induction rest generalizing seen with
  | nil => rfl
  | cons kv rest ih =>
    simp only [List.map_cons, List.mem_cons, not_or] at h
    simp [deliver, Ne.symm h.1, ih h.2]

/-- The last list let out is that of the values after the delivery. -/
theorem getLast?_deliver {k : K} {v : V} {vs : List V} {rest : Latest K V}
    (hk : k ∈ rest.map Prod.fst) (seen : Latest K V)
    (h : combined (seen ++ put k v rest) = some vs) :
    (deliver k v seen rest).getLast? = some vs := by
  induction rest generalizing seen with
  | nil => simp at hk
  | cons kv rest ih =>
    obtain ⟨k', o⟩ := kv
    rw [put_cons, List.append_cons] at h
    by_cases hrest : k ∈ rest.map Prod.fst
    · have hlast := ih hrest _ h
      by_cases hk' : k' = k
      · simp only [hk', if_true] at hlast
        simp [deliver, hk', hlast]
      · simp only [hk', if_false] at hlast
        simp [deliver, hk', hlast]
    · -- the delivery to `k'` is the last one
      have hk' : k' = k := by simpa [hrest, eq_comm] using hk
      rw [put_of_notMem hrest] at h
      simp only [hk', if_true, List.append_assoc, List.singleton_append] at h
      simp [deliver, hk', deliver_of_notMem hrest, h]

/-- Every value kept belongs to its stream. -/
def Owned (P : K → V → Prop) (l : Latest K V) : Prop :=
  ∀ kv ∈ l, ∀ v ∈ kv.2, P kv.1 v

variable {P : K → V → Prop}

omit [DecidableEq K] in
theorem Owned.append {l l' : Latest K V} :
    Owned P (l ++ l') ↔ Owned P l ∧ Owned P l' := by
  simp [Owned, or_imp, forall_and]

omit [DecidableEq K] in
theorem owned_cons {k : K} {o : Option V} {l : Latest K V} :
    Owned P ((k, o) :: l) ↔ (∀ v ∈ o, P k v) ∧ Owned P l := by
  simp [Owned]

omit [DecidableEq K] in
theorem owned_opened (ks : List K) : Owned P (opened ks) := by
  simp [Owned, opened]

theorem Owned.put {k : K} {v : V} {l : Latest K V} (hl : Owned P l) (hv : P k v) :
    Owned P (put k v l) := by
  induction l with
  | nil => exact hl
  | cons kv l ih =>
    obtain ⟨k', o⟩ := kv
    rw [owned_cons] at hl
    rw [put_cons, owned_cons]
    have hnew : ∀ w ∈ (if k' = k then some v else o), P k' w := by
      by_cases h : k' = k
      · simp [h, hv]
      · simpa [h] using hl.1
    exact ⟨hnew, ih hl.2⟩

omit [DecidableEq K] in
/-- A list that is let out has one value of each stream, in order. -/
theorem Owned.forall₂ {l : Latest K V} {vs : List V} (hl : Owned P l)
    (h : combined l = some vs) : List.Forall₂ P (l.map Prod.fst) vs := by
  rw [combined_eq_some] at h
  induction l generalizing vs with
  | nil =>
    cases vs with
    | nil => exact .nil
    | cons v vs => simp at h
  | cons kv l ih =>
    obtain ⟨k, o⟩ := kv
    cases vs with
    | nil => simp at h
    | cons v vs =>
      simp only [List.map_cons, List.cons.injEq] at h
      rw [owned_cons] at hl
      exact .cons (hl.1 v h.1) (ih hl.2 h.2)

theorem Owned.deliver {k : K} {v : V} {seen rest : Latest K V}
    (hv : P k v) (h : Owned P (seen ++ rest)) :
    ∀ vs ∈ deliver k v seen rest,
      List.Forall₂ P (seen.map Prod.fst ++ rest.map Prod.fst) vs := by
  induction rest generalizing seen with
  | nil => simp [Latest.deliver]
  | cons kv rest ih =>
    obtain ⟨k', o⟩ := kv
    rw [List.append_cons] at h
    intro vs hvs
    by_cases hk : k' = k
    · have hnow : Owned P ((seen ++ [(k', some v)]) ++ rest) := by
        rw [Owned.append, Owned.append, owned_cons] at h ⊢
        have hnew : ∀ w ∈ some v, P k' w := by simp [hk, hv]
        exact ⟨⟨h.1.1, hnew, h.1.2.2⟩, h.2⟩
      simp only [Latest.deliver, if_pos hk, List.mem_append, Option.mem_toList] at hvs
      rcases hvs with hvs | hvs
      · rw [List.append_cons] at hvs
        simpa using hnow.forall₂ hvs
      · simpa using ih hnow vs hvs
    · simp only [Latest.deliver, if_neg hk] at hvs
      simpa using ih h vs hvs

end Latest

section Combine

open Latest

variable [DecidableEq K] (decode : K → S → Except ε V)

/-- The combination of one stream per key; `(k, s)` is the event that the
stream of `k` yields `s`, and `decode` the function mapped over it. -/
def combineLatestList : Machine (Latest K V) (K × S) (Except ε (List V)) where
  next l e :=
    match decode e.1 e.2 with
    | .ok v => put e.1 v l
    | .error _ => l
  out l e :=
    match decode e.1 e.2 with
    | .ok v => (deliver e.1 v [] l).map .ok
    | .error err => (l.filter fun kv => kv.1 = e.1).map fun _ => .error err

/-- The latest value of the stream of `k`. -/
def kept (k : K) (es : List (K × S)) : Option V :=
  (es.filterMap fun e => if e.1 = k then (decode k e.2).toOption else none).getLast?

/-- What the stream of `k` has yielded last. -/
def yielded (k : K) (es : List (K × S)) : Option S :=
  (es.filterMap fun e => if e.1 = k then some e.2 else none).getLast?

variable {decode}

@[simp] theorem next_ok {l : Latest K V} {e : K × S} {v : V} (h : decode e.1 e.2 = .ok v) :
    (combineLatestList decode).next l e = put e.1 v l := by
  simp [combineLatestList, h]

@[simp] theorem next_error {l : Latest K V} {e : K × S} {err : ε}
    (h : decode e.1 e.2 = .error err) : (combineLatestList decode).next l e = l := by
  simp [combineLatestList, h]

@[simp] theorem values_out_ok {l : Latest K V} {e : K × S} {v : V}
    (h : decode e.1 e.2 = .ok v) :
    values ((combineLatestList decode).out l e) = deliver e.1 v [] l := by
  simp [combineLatestList, h]

@[simp] theorem values_out_error {l : Latest K V} {e : K × S} {err : ε}
    (h : decode e.1 e.2 = .error err) :
    values ((combineLatestList decode).out l e) = [] := by
  simp [combineLatestList, h, List.map_const']

/-- If the last thing yielded can be decoded, it is what is kept. -/
theorem kept_of_yielded {k : K} {es : List (K × S)} {s : S} {v : V}
    (hs : yielded k es = some s) (hv : decode k s = .ok v) :
    kept decode k es = some v := by
  induction es using List.reverseRecOn with
  | nil => simp [yielded] at hs
  | append_singleton es e ih =>
    obtain ⟨k', s'⟩ := e
    by_cases hk : k' = k
    · have hs' : s' = s := by simpa [yielded, hk] using hs
      simp [kept, hk, hs', hv, Except.toOption]
    · have hs' : yielded k es = some s := by simpa [yielded, hk] using hs
      simpa [kept, hk] using ih hs'

/-- A stream that yields one thing only has yielded it last. -/
theorem yielded_of_forall {k : K} {es : List (K × S)} {s : S} (hmem : (k, s) ∈ es)
    (hall : ∀ s', (k, s') ∈ es → s' = s) : yielded k es = some s := by
  have hfilter : ∀ s', s' ∈ es.filterMap (fun e => if e.1 = k then some e.2 else none) ↔
      (k, s') ∈ es := by
    intro s'
    rw [List.mem_filterMap]
    constructor
    · intro h
      obtain ⟨e, he, hs⟩ := h
      by_cases hk : e.1 = k
      · simp only [if_pos hk, Option.some.injEq] at hs
        rwa [← hk, ← hs]
      · simp [hk] at hs
    · intro h
      exact ⟨(k, s'), h, by simp⟩
  cases hlast : yielded k es with
  | none =>
    have hnil := List.getLast?_eq_none_iff.mp hlast
    have hs := (hfilter s).mpr hmem
    simp [hnil] at hs
  | some s' => rw [hall s' ((hfilter s').mp (List.mem_of_getLast? hlast))]

/-- After any events each stream has its latest value. -/
theorem after_opened (ks : List K) (es : List (K × S)) :
    (combineLatestList decode).after (opened ks) es =
      ks.map fun k => (k, kept decode k es) := by
  induction es using List.reverseRecOn with
  | nil => simp [opened, kept]
  | append_singleton es e ih =>
    rw [Machine.after_append, ih]
    cases hd : decode e.1 e.2 with
    | error err =>
      simp only [Machine.after_cons, Machine.after_nil, next_error hd]
      apply List.map_congr_left
      intro k _
      by_cases hk : e.1 = k
      · subst hk
        simp [kept, hd, Except.toOption]
      · simp [kept, hk]
    | ok v =>
      simp only [Machine.after_cons, Machine.after_nil, next_ok hd, put, List.map_map]
      apply List.map_congr_left
      intro k _
      by_cases hk : e.1 = k
      · subst hk
        simp [kept, hd, Except.toOption]
      · simp [kept, hk, Ne.symm hk]

/-- Once every stream has a value, the last list let out is that of the
latest values. -/
theorem getLast?_emits {ks : List K} (hks : ks ≠ []) {es : List (K × S)} {vs : List V}
    (h : combined ((combineLatestList decode).after (opened ks) es) = some vs) :
    (values ((combineLatestList decode).emits (opened ks) es)).getLast? = some vs := by
  induction es using List.reverseRecOn generalizing vs with
  | nil =>
    cases ks with
    | nil => exact absurd rfl hks
    | cons k ks => simp [opened, combined] at h
  | append_singleton es e ih =>
    rw [Machine.after_append] at h
    rw [Machine.emits_append, values_append, List.getLast?_append]
    simp only [Machine.after_cons, Machine.after_nil, Machine.emits_cons,
      Machine.emits_nil, List.append_nil] at h ⊢
    have hkeys : ((combineLatestList decode).after (opened ks) es).map Prod.fst = ks := by
      simp [after_opened, Function.comp_def]
    cases hd : decode e.1 e.2 with
    | error err =>
      rw [next_error hd] at h
      simp [values_out_error hd, ih h]
    | ok v =>
      rw [next_ok hd] at h
      by_cases hk : e.1 ∈ ks
      · have hlast := getLast?_deliver (hkeys.symm ▸ hk) [] h
        simp [values_out_ok hd, hlast]
      · -- nobody listens to this stream
        have hk' := hkeys.symm ▸ hk
        rw [put_of_notMem hk'] at h
        simp [values_out_ok hd, deliver_of_notMem hk', ih h]

/-- Every list let out has one value of each stream, in order. -/
theorem emits_owned {P : K → V → Prop} {es : List (K × S)}
    (hP : ∀ e ∈ es, ∀ v, decode e.1 e.2 = .ok v → P e.1 v) (ks : List K) :
    ∀ vs ∈ values ((combineLatestList decode).emits (opened ks) es),
      List.Forall₂ P ks vs := by
  intro vs hvs
  have hall : ∀ o ∈ (combineLatestList decode).emits (opened ks) es,
      ∀ vs, o = .ok vs → List.Forall₂ P ks vs := by
    apply Machine.forall_emits (combineLatestList decode)
      (J := fun l => Owned P l ∧ l.map Prod.fst = ks)
      (P := fun o => ∀ vs, o = .ok vs → List.Forall₂ P ks vs)
    · intro e he l hl
      cases hd : decode e.1 e.2 with
      | error err => rwa [next_error hd]
      | ok v =>
        rw [next_ok hd, keys_put]
        exact ⟨hl.1.put (hP e he v hd), hl.2⟩
    · intro e he l hl o ho vs hvs
      subst hvs
      have hmem := mem_values.mpr ho
      cases hd : decode e.1 e.2 with
      | error err => simp [values_out_error hd] at hmem
      | ok v =>
        rw [values_out_ok hd] at hmem
        have hl' : Owned P ([] ++ l) := hl.1
        simpa [hl.2] using hl'.deliver (hP e he v hd) vs hmem
    · exact ⟨owned_opened ks, by simp [opened, Function.comp_def]⟩
  exact hall _ (mem_values.mp hvs) vs rfl

/-- A stream that never yields a value holds back all of them. -/
theorem values_emits_eq_nil {ks : List K} {k : K} (hk : k ∈ ks) {es : List (K × S)}
    (h : ∀ s, (k, s) ∈ es → ∀ v, decode k s ≠ .ok v) :
    values ((combineLatestList decode).emits (opened ks) es) = [] := by
  rw [List.eq_nil_iff_forall_not_mem]
  intro vs hvs
  have howned := emits_owned (P := fun k' _ => k' ≠ k)
    (fun e he v hv hek => h e.2 (hek ▸ he) v (hek ▸ hv)) ks vs hvs
  clear hvs
  induction howned with
  | nil => simp at hk
  | cons hne _ ih =>
    rcases List.mem_cons.mp hk with hk' | hk'
    · exact hne hk'.symm
    · exact ih hk'

/-- The combination of no streams has no value. -/
theorem values_emits_opened_nil (es : List (K × S)) :
    values ((combineLatestList decode).emits (opened []) es) = [] := by
  induction es with
  | nil => rfl
  | cons e es ih =>
    have hstay : (combineLatestList decode).next (opened []) e = opened [] := by
      cases hd : decode e.1 e.2 with
      | error err => simp [next_error hd]
      | ok v => simp [next_ok hd, opened]
    have hquiet : values ((combineLatestList decode).out (opened []) e) = [] := by
      cases hd : decode e.1 e.2 with
      | error err => simp [values_out_error hd]
      | ok v => simp [values_out_ok hd, opened, deliver]
    simp [hstay, hquiet, ih]

end Combine

/-! ## MergeStream -/

/-- One stream per key, everything they let out as it comes. -/
def mergeStream [DecidableEq K] (decode : S → Except ε V) :
    Machine (List K) (K × S) (Except ε V) where
  next ks _ := ks
  out ks e := (ks.filter fun k => k = e.1).map fun _ => decode e.2

/-! ## switchMap -/

section Switch

/-- `open_ a` is the inner stream for `a` at its beginning. -/
def switchMap (open_ : A → Except ε σ) (inner : Machine σ I (Except ε O)) :
    Machine (Option σ) (A ⊕ I) (Except ε O) where
  next
    | s, .inl a =>
      match open_ a with
      | .ok t => some t
      | .error _ => s
    | s, .inr i => s.map fun t => inner.next t i
  out
    | _, .inl a =>
      match open_ a with
      | .ok _ => []
      | .error err => [.error err]
    | some t, .inr i => inner.out t i
    | none, .inr _ => []

@[simp] theorem next_outer_ok {inner : Machine σ I (Except ε O)} {open_ : A → Except ε σ}
    {a : A} {t : σ} (h : open_ a = .ok t) (s : Option σ) :
    (switchMap open_ inner).next s (.inl a) = some t := by
  simp [switchMap, h]

@[simp] theorem next_outer_error {inner : Machine σ I (Except ε O)}
    {open_ : A → Except ε σ} {a : A} {err : ε} (h : open_ a = .error err) (s : Option σ) :
    (switchMap open_ inner).next s (.inl a) = s := by
  simp [switchMap, h]

/-- The outer stream itself lets out errors only. -/
@[simp] theorem values_out_outer (open_ : A → Except ε σ) (inner : Machine σ I (Except ε O))
    (s : Option σ) (a : A) : values ((switchMap open_ inner).out s (.inl a)) = [] := by
  cases h : open_ a <;> simp [switchMap, h]

@[simp] theorem next_inner (open_ : A → Except ε σ) (inner : Machine σ I (Except ε O))
    (t : σ) (i : I) :
    (switchMap open_ inner).next (some t) (.inr i) = some (inner.next t i) := rfl

@[simp] theorem out_inner (open_ : A → Except ε σ) (inner : Machine σ I (Except ε O))
    (t : σ) (i : I) : (switchMap open_ inner).out (some t) (.inr i) = inner.out t i := rfl

/-- The events of the inner stream. -/
def inners (es : List (A ⊕ I)) : List I := es.filterMap Sum.getRight?

@[simp] theorem inners_nil : inners ([] : List (A ⊕ I)) = [] := rfl

@[simp] theorem inners_inl (a : A) (es : List (A ⊕ I)) : inners (.inl a :: es) = inners es :=
  rfl

@[simp] theorem inners_inr (i : I) (es : List (A ⊕ I)) :
    inners (.inr i :: es) = i :: inners es := rfl

theorem mem_inners {i : I} {es : List (A ⊕ I)} : i ∈ inners es ↔ .inr i ∈ es := by
  induction es with
  | nil => simp
  | cons e es ih => cases e <;> simp [ih]

/-- The outer stream yields nothing that an inner stream is picked for. -/
def Unswitched (open_ : A → Except ε σ) (es : List (A ⊕ I)) : Prop :=
  ∀ a, .inl a ∈ es → ∀ t, open_ a ≠ .ok t

variable {open_ : A → Except ε σ} {inner : Machine σ I (Except ε O)}

/-- While no other inner stream is picked, the inner stream is let
through. -/
theorem values_emits_unswitched {es : List (A ⊕ I)} (h : Unswitched open_ es) (t : σ) :
    values ((switchMap open_ inner).emits (some t) es) =
      values (inner.emits t (inners es)) := by
  induction es generalizing t with
  | nil => rfl
  | cons e es ih =>
    have htail : Unswitched open_ es := fun a ha => h a (List.mem_cons_of_mem _ ha)
    cases e with
    | inl a =>
      cases ha : open_ a with
      | ok u => exact absurd ha (h a List.mem_cons_self u)
      | error err => simp [next_outer_error ha, ih htail]
    | inr i => simp [ih htail]

/-- Since the last outer value a switched stream is the inner stream from
its beginning. -/
theorem values_emits_switchMap {a : A} {t : σ} {es : List (A ⊕ I)} (ha : open_ a = .ok t)
    (h : Unswitched open_ es) (s : Option σ) :
    values ((switchMap open_ inner).emits s (.inl a :: es)) =
      values (inner.emits t (inners es)) := by
  rw [← values_emits_unswitched h t]
  simp [next_outer_ok ha]

end Switch

end GottaGo.Rx
