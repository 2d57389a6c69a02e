/-
GottaGo.Async.Turns — calls that take turns.

Some of the calls of a pool work on one thing and never two of them at
once: a call that works on it starts only when the ones before it have
ended. Whatever the other calls do in between, the log of that thing
reads as if each call had run alone (`Reach.in_turn`): it is what the
calls write, one whole call after the other, in the order they started.
-/
import GottaGo.Async.Pool

namespace GottaGo.Async.Pool

variable {σ τ α : Type}

/-- Of the calls that are `mine`, at most one has not ended. -/
def InTurn (mine ended : τ → Prop) (c : Pool σ τ) : Prop :=
  c.threads.Pairwise fun t u => mine t → mine u → ended t ∨ ended u

variable {mine ended : τ → Prop}

/-- While one call that is `mine` is under way, the others have ended. -/
theorem InTurn.others {s : σ} {pre post : List τ} {t : τ}
    (h : InTurn mine ended ⟨s, pre ++ t :: post⟩) (ht : mine t) (hend : ¬ ended t) :
    ∀ u ∈ post.reverse ++ pre.reverse, mine u → ended u := by
  intro u hu hmine
  obtain ⟨-, hpost, hpre⟩ := List.pairwise_append.mp h
  rcases List.mem_append.mp hu with hu | hu
  · have hor := (List.pairwise_cons.mp hpost).1 u (List.mem_reverse.mp hu) ht hmine
    exact hor.resolve_left hend
  · have hor := hpre u (List.mem_reverse.mp hu) t List.mem_cons_self hmine ht
    exact hor.resolve_right hend

/-- What is logged and what is left to log, call after call, is what the
calls write. `log` is the log of the thing, `rest` what a call has still
to write to it, `whole` what it writes in all. The calls of a pool are
the last started first. -/
theorem Reach.in_turn {ok : Pool σ τ → Prop} {start : σ → σ → τ → Prop}
    {adv : σ → τ → σ → τ → Prop} {s : σ} {c : Pool σ τ}
    (log : σ → List α) (rest whole : τ → List α)
    (hstart : ∀ s s' t, start s s' t → log s' = log s ∧ rest t = whole t)
    (hadv : ∀ s t s' t', adv s t s' t' → ¬ ended t ∧ (mine t' ↔ mine t) ∧
      whole t' = whole t ∧ log s' ++ rest t' = log s ++ rest t)
    (hended : ∀ t, ended t → rest t = []) (hother : ∀ t, ¬ mine t → rest t = [])
    (hok : ∀ d, ok d → InTurn mine ended d)
    (h : Reach ok start adv ⟨s, []⟩ c) :
    log c.state ++ c.threads.reverse.flatMap rest =
      log s ++ c.threads.reverse.flatMap whole := by
  have hinv : InTurn mine ended c ∧ log c.state ++ c.threads.reverse.flatMap rest =
      log s ++ c.threads.reverse.flatMap whole := by
    refine h.invariant (J := fun d => InTurn mine ended d ∧
      log d.state ++ d.threads.reverse.flatMap rest =
        log s ++ d.threads.reverse.flatMap whole) ⟨.nil, rfl⟩ ?_
    intro d d' hd hs hd'
    refine ⟨hok d' hd', ?_⟩
    obtain ⟨hturn, hd⟩ := hd
    cases hs with
    | @start s₁ s₂ t ts ht =>
      obtain ⟨hlog, hrest⟩ := hstart _ _ _ ht
      simp only [List.reverse_cons, List.flatMap_append, List.flatMap_singleton, hlog,
        hrest, ← List.append_assoc] at hd ⊢
      rw [hd]
    | @adv s₁ s₂ t t' pre post ht =>
      obtain ⟨hend, hmine', hwhole, hlog⟩ := hadv _ _ _ _ ht
      simp only [List.reverse_append, List.reverse_cons, List.flatMap_append,
        List.flatMap_singleton, List.append_assoc, hwhole] at hd ⊢
      by_cases hmine : mine t
      · -- the other calls on this thing have nothing left to write
        have hnil : ∀ u ∈ post.reverse ++ pre.reverse, rest u = [] := by
          intro u hu
          by_cases hu' : mine u
          · exact hended u (hturn.others hmine hend u hu hu')
          · exact hother u hu'
        rw [List.forall_mem_append] at hnil
        rw [List.flatMap_eq_nil_iff.mpr hnil.1, List.flatMap_eq_nil_iff.mpr hnil.2,
          List.nil_append, List.append_nil] at hd ⊢
        rw [hlog, hd]
      · have hmine' : ¬ mine t' := fun h => hmine (hmine'.mp h)
        rw [hother t hmine, hother t' hmine', List.append_nil, List.append_nil] at hlog
        rw [hother t hmine] at hd
        rw [hother t' hmine', hlog, hd]
  exact hinv.2

end GottaGo.Async.Pool
