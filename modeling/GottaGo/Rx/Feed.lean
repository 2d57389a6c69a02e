/-
GottaGo.Rx.Feed — what has been issued to a listener and what it has been
given.

`feed` lists what has been issued to listeners and not been given to them
yet, `log` what they have been given, both oldest first. A listener is
always given the oldest thing that is waiting for it, so for each listener
`log ++ feed` is the order in which things were issued: taking from the
feed changes nothing in it (`yielded_take?`). If everything has been
given, to each listener once, and the last thing issued to each is what it
reads now, then the log is one entry per listener, in some order
(`perm_of_once`).
-/
import GottaGo.Rx.Operators
import Mathlib.Data.List.Nodup

namespace GottaGo.Rx

variable {K S : Type} [DecidableEq K]

/-- The oldest thing waiting for `k`, and what is waiting then. -/
def take? (k : K) : List (K × S) → Option (S × List (K × S))
  | [] => none
  | e :: es => if e.1 = k then some (e.2, es) else (take? k es).map fun r => (r.1, e :: r.2)

theorem yielded_append (k : K) (es fs : List (K × S)) :
    yielded k (es ++ fs) = (yielded k fs).or (yielded k es) := by
  simp [yielded, List.filterMap_append, List.getLast?_append]

theorem yielded_eq_none {k : K} {es : List (K × S)} (h : ∀ e ∈ es, e.1 ≠ k) :
    yielded k es = none := by
  have hnil : es.filterMap (fun e => if e.1 = k then some e.2 else none) = [] := by
    rw [List.filterMap_eq_nil_iff]
    intro e he
    simp [h e he]
  rw [yielded, hnil]
  rfl

/-- Leaving out what is for others changes nothing for `k`. -/
theorem yielded_filter {k : K} {es : List (K × S)} {p : K × S → Bool}
    (h : ∀ e ∈ es, e.1 = k → p e = true) : yielded k (es.filter p) = yielded k es := by
  rw [yielded, yielded, List.filterMap_filter]
  congr 1
  apply List.filterMap_congr
  intro e he
  by_cases hk : e.1 = k
  · simp [h e he hk, hk]
  · simp [hk]

theorem mem_of_yielded {k : K} {es : List (K × S)} {s : S} (h : yielded k es = some s) :
    (k, s) ∈ es := by
  obtain ⟨e, he, hs⟩ := List.mem_filterMap.mp (List.mem_of_getLast? h)
  by_cases hk : e.1 = k
  · simp only [if_pos hk, Option.some.injEq] at hs
    rwa [← hk, ← hs]
  · simp [hk] at hs

/-- What is taken is the first thing for `k`. -/
theorem take?_eq_some {k : K} {feed rest : List (K × S)} {s : S}
    (h : take? k feed = some (s, rest)) :
    ∃ pre post, feed = pre ++ (k, s) :: post ∧ rest = pre ++ post ∧ ∀ e ∈ pre, e.1 ≠ k := by
  induction feed generalizing rest with
  | nil => cases h
  | cons e es ih =>
    by_cases hk : e.1 = k
    · simp only [take?, if_pos hk, Option.some.injEq, Prod.mk.injEq] at h
      obtain ⟨rfl, rfl⟩ := h
      rw [← hk]
      exact ⟨[], es, rfl, rfl, nofun⟩
    · simp only [take?, if_neg hk, Option.map_eq_some_iff, Prod.mk.injEq] at h
      obtain ⟨⟨s', rest'⟩, htake, rfl, rfl⟩ := h
      obtain ⟨pre, post, rfl, rfl, hpre⟩ := ih htake
      exact ⟨e :: pre, post, rfl, rfl, List.forall_mem_cons.mpr ⟨hk, hpre⟩⟩

/-- What is taken was waiting, and the rest still is. -/
theorem take?_mem {k : K} {feed rest : List (K × S)} {s : S}
    (h : take? k feed = some (s, rest)) : (k, s) ∈ feed ∧ ∀ e ∈ rest, e ∈ feed := by
  obtain ⟨pre, post, rfl, rfl, -⟩ := take?_eq_some h
  refine ⟨by simp, fun e he => ?_⟩
  rcases List.mem_append.mp he with he | he
  · exact List.mem_append_left _ he
  · exact List.mem_append_right _ (List.mem_cons_of_mem _ he)

/-- Giving a listener what is waiting for it leaves the order in which
things were issued to each listener. -/
theorem yielded_take? {k : K} {feed rest : List (K × S)} {s : S}
    (h : take? k feed = some (s, rest)) (q : K) (log : List (K × S)) :
    yielded q (log ++ [(k, s)] ++ rest) = yielded q (log ++ feed) := by
  obtain ⟨pre, post, rfl, rfl, hpre⟩ := take?_eq_some h
  -- what stands before it is for others, or it is not for `q`
  have hswap : ∀ o, (yielded q pre).or ((yielded q [(k, s)]).or o) =
      (yielded q [(k, s)]).or ((yielded q pre).or o) := by
    intro o
    by_cases hq : k = q
    · subst hq
      rw [yielded_eq_none hpre, Option.none_or, Option.none_or]
    · have hnone : yielded q [(k, s)] = none := by simp [yielded, hq]
      rw [hnone, Option.none_or, Option.none_or]
  rw [← List.singleton_append (l := post)]
  simp only [yielded_append, Option.or_assoc, hswap]

/-- Things that have all been given, to each listener of `qs` once. -/
theorem perm_of_once {log : List (K × S)} {qs : List K} {read : K → S}
    (honce : (log.map Prod.fst).Nodup) (hqs : qs.Nodup)
    (hread : ∀ q ∈ qs, yielded q log = some (read q)) (hmine : ∀ e ∈ log, e.1 ∈ qs) :
    log.Perm (qs.map fun q => (q, read q)) := by
  have hvalue : ∀ e ∈ log, e = (e.1, read e.1) := by
    intro e he
    have hfirst : ∀ s, (e.1, s) ∈ log → s = e.2 := by
      intro s hs
      have heq := List.inj_on_of_nodup_map honce hs he rfl
      rw [← heq]
    have hlast := yielded_of_forall he hfirst
    rw [hread e.1 (hmine e he)] at hlast
    exact Prod.ext rfl (Option.some.inj hlast).symm
  have hkeys : (log.map Prod.fst).Perm qs := by
    rw [List.perm_ext_iff_of_nodup honce hqs]
    intro q
    constructor
    · intro hq
      obtain ⟨e, he, rfl⟩ := List.mem_map.mp hq
      exact hmine e he
    · intro hq
      exact List.mem_map_of_mem (f := Prod.fst) (mem_of_yielded (hread q hq))
  have hlog : log = (log.map Prod.fst).map fun q => (q, read q) := by
    rw [List.map_map]
    exact (List.map_id' log).symm.trans (List.map_congr_left fun e he => hvalue e he)
  rw [hlog]
  exact hkeys.map _

end GottaGo.Rx
