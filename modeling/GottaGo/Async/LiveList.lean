/-
GottaGo.Async.LiveList — a loop over a list that others change.

The body of the loop awaits, and while it does, whoever else holds the list
may change it. The loop goes on with the list as it is then: it moves on by
index, and throws where its iterator notices that the list is another one.

Which changes are noticed is left to a `Check`. `loop_thrown_iff` and
`loop_visited` say for each of them what the loop visits, in terms of the
list before each move (`before`), and `unchanged_iff` is the case where
nothing was changed at all.
-/
import Mathlib.Data.List.Basic

namespace GottaGo.Async

/-- A list that can be changed, with the number of its changes. -/
structure LiveList (α : Type) where
  elems : List α
  changes : Nat := 0

namespace LiveList

/-- What an iterator compares, when it moves on, to notice a change. By its
length a list is not told from another one that is as long. -/
inductive Check where
  | changes
  | length
  deriving DecidableEq, Repr

variable {α E : Type}

/-- An iterator over `first` throws when it moves on in `list`. -/
def Check.notices : Check → LiveList α → LiveList α → Bool
  | .changes, first, list => list.changes != first.changes
  | .length, first, list => list.elems.length != first.elems.length

/-- What a loop has visited, and whether it has ended by throwing. -/
structure LoopEnd (α : Type) where
  visited : List α
  thrown : Bool
  deriving DecidableEq, Repr

/-- The loop over `first`, from `index` on and with `left` elements to go.
`between k` is what happens to the list while the body awaits for the `k`-th
time. -/
def loop (check : Check) (between : Nat → LiveList α → LiveList α) (first : LiveList α) :
    Nat → Nat → LiveList α → LoopEnd α
  | 0, _, list => { visited := [], thrown := check.notices first list }
  | left + 1, index, list =>
    if check.notices first list then { visited := [], thrown := true }
    else match list.elems[index]? with
      | none => { visited := [], thrown := false }
      | some a =>
        let rest := loop check between first left (index + 1) (between index list)
        { rest with visited := a :: rest.visited }

/-- `for (a in first)`. -/
def forEach (check : Check) (between : Nat → LiveList α → LiveList α) (first : LiveList α) :
    LoopEnd α :=
  loop check between first first.elems.length 0 first

/-- The list before the `k`-th move. -/
def before (between : Nat → LiveList α → LiveList α) (first : LiveList α) : Nat → LiveList α
  | 0 => first
  | k + 1 => between k (before between first k)

/-! ## What a loop visits -/

section Loop

variable (check : Check) {between : Nat → LiveList α → LiveList α} {first : LiveList α}

/-- Where the loop throws, and what it visits if it does not. -/
theorem loop_spec (left index : Nat) (hn : index + left = first.elems.length)
    (hpast : ∀ k < index, check.notices first (before between first k) = false)
    (hover : ∀ k < first.elems.length,
      (∀ j ≤ k, check.notices first (before between first j) = false) →
        (before between first k).elems[k]?.isSome) :
    ((loop check between first left index (before between first index)).thrown = false ↔
        ∀ k ≤ left, check.notices first (before between first (index + k)) = false) ∧
      ((loop check between first left index (before between first index)).thrown = false →
        (loop check between first left index (before between first index)).visited =
          (List.range' index left).filterMap fun k => (before between first k).elems[k]?) := by
  induction left generalizing index with
  | zero => simp [loop]
  | succ left ih =>
    cases hnotice : check.notices first (before between first index) with
    | true =>
      refine ⟨iff_of_false (by simp [loop, hnotice]) fun h => ?_, by simp [loop, hnotice]⟩
      have hzero := h 0 (Nat.zero_le _)
      simp [hnotice] at hzero
    | false =>
      have hpresent : ∀ k ≤ index, check.notices first (before between first k) = false := by
        intro k hk
        rcases Nat.lt_or_eq_of_le hk with hk | rfl
        · exact hpast k hk
        · exact hnotice
      obtain ⟨a, ha⟩ := Option.isSome_iff_exists.mp (hover index (by omega) hpresent)
      obtain ⟨hthrown, hvisited⟩ := ih (index + 1) (by omega) fun k hk =>
        hpresent k (Nat.le_of_lt_succ hk)
      have hloop : loop check between first (left + 1) index (before between first index) =
          { loop check between first left (index + 1) (before between first (index + 1)) with
            visited := a ::
              (loop check between first left (index + 1)
                (before between first (index + 1))).visited } := by
        simp [loop, hnotice, ha, before]
      rw [hloop]
      refine ⟨hthrown.trans ⟨fun h k hk => ?_, fun h k hk => ?_⟩, fun h => ?_⟩
      · cases k with
        | zero => exact hnotice
        | succ k =>
          have hk' := h k (by omega)
          rwa [show index + 1 + k = index + (k + 1) by omega] at hk'
      · have hk' := h (k + 1) (by omega)
        rwa [show index + (k + 1) = index + 1 + k by omega] at hk'
      · simp only [List.range'_succ, List.filterMap_cons, ha]
        rw [hvisited h]

/-- A loop that throws nowhere visits what is under its index at each move. -/
theorem forEach_spec
    (hover : ∀ k < first.elems.length,
      (∀ j ≤ k, check.notices first (before between first j) = false) →
        (before between first k).elems[k]?.isSome) :
    ((forEach check between first).thrown = false ↔
        ∀ k ≤ first.elems.length, check.notices first (before between first k) = false) ∧
      ((forEach check between first).thrown = false →
        (forEach check between first).visited =
          (List.range first.elems.length).filterMap fun k =>
            (before between first k).elems[k]?) := by
  have hspec := loop_spec check first.elems.length 0 (Nat.zero_add _) (by simp) hover
  simpa only [forEach, before, Nat.zero_add, List.range_eq_range'] using hspec

end Loop

/-! ## Events that change the list -/

section Handled

variable [DecidableEq α] (effect : List α → E → List α)

/-- The list with other elements, which is a change unless they are the same
ones. -/
def assign (list : LiveList α) (elems : List α) : LiveList α :=
  if elems = list.elems then list else { elems, changes := list.changes + 1 }

/-- The list after events have been handled. -/
def handle (list : LiveList α) (events : List E) : LiveList α :=
  events.foldl (fun list e => list.assign (effect list.elems e)) list

theorem assign_self (list : LiveList α) : list.assign list.elems = list := if_pos rfl

theorem changes_assign_eq {list : LiveList α} {elems : List α} :
    (list.assign elems).changes = list.changes ↔ elems = list.elems := by
  by_cases h : elems = list.elems <;> simp [assign, h]

theorem changes_le_assign (list : LiveList α) (elems : List α) :
    list.changes ≤ (list.assign elems).changes := by
  by_cases h : elems = list.elems <;> simp [assign, h]

theorem changes_le_handle (list : LiveList α) (events : List E) :
    list.changes ≤ (list.handle effect events).changes := by
  induction events generalizing list with
  | nil => exact Nat.le_refl _
  | cons e events ih => exact Nat.le_trans (changes_le_assign _ _) (ih _)

/-- Events that leave the elements as they are are no change. -/
theorem handle_of_unchanged {list : LiveList α} {events : List E}
    (h : ∀ e ∈ events, effect list.elems e = list.elems) : list.handle effect events = list := by
  induction events with
  | nil => rfl
  | cons e events ih =>
    have hrest := ih fun f hf => h f (List.mem_cons_of_mem _ hf)
    rw [handle, List.foldl_cons, h e List.mem_cons_self, assign_self]
    exact hrest

/-- Where nothing was counted, no event changed the list. -/
theorem unchanged_of_changes_handle {list : LiveList α} {events : List E}
    (h : (list.handle effect events).changes = list.changes) :
    ∀ e ∈ events, effect list.elems e = list.elems := by
  induction events with
  | nil => simp
  | cons e events ih =>
    have hlater := changes_le_handle effect (list.assign (effect list.elems e)) events
    have hfirst := changes_le_assign list (effect list.elems e)
    have heq : effect list.elems e = list.elems :=
      changes_assign_eq.mp (Nat.le_antisymm (Nat.le_trans hlater (Nat.le_of_eq h)) hfirst)
    rw [handle, List.foldl_cons, heq, assign_self] at h
    intro f hf
    rcases List.mem_cons.mp hf with rfl | hf
    · exact heq
    · exact ih h f hf

variable (gaps : Nat → List E) (first : LiveList α)

/-- The list before the `k`-th move, where `gaps k` are handled while the
body awaits for the `k`-th time. -/
def beforeMove (k : Nat) : LiveList α :=
  before (fun k list => list.handle effect (gaps k)) first k

/-- The loop while those events are handled. -/
def forEachBeside (check : Check) : LoopEnd α :=
  forEach check (fun k list => list.handle effect (gaps k)) first

/-- Where no event changes the list, the loop moves on in the list it began
with. -/
theorem beforeMove_of_unchanged {n : Nat}
    (h : ∀ k < n, ∀ e ∈ gaps k, effect first.elems e = first.elems) :
    beforeMove effect gaps first n = first := by
  induction n with
  | zero => rfl
  | succ n ih =>
    have hbefore : beforeMove effect gaps first n = first := ih fun k hk => h k (by omega)
    show (beforeMove effect gaps first n).handle effect (gaps n) = first
    rw [hbefore]
    exact handle_of_unchanged effect (h n (Nat.lt_succ_self n))

/-- The list has not been changed before any of the moves just when none of
the events changes it. -/
theorem unchanged_iff (n : Nat) :
    (∀ k ≤ n, (beforeMove effect gaps first k).changes = first.changes) ↔
      ∀ k < n, ∀ e ∈ gaps k, effect first.elems e = first.elems := by
  constructor
  · induction n with
    | zero => simp
    | succ n ih =>
      intro h
      have hrest := ih fun k hk => h k (by omega)
      have hlast : (first.handle effect (gaps n)).changes = first.changes := by
        have hmove : beforeMove effect gaps first (n + 1) =
            (beforeMove effect gaps first n).handle effect (gaps n) := rfl
        rw [← h (n + 1) (Nat.le_refl _), hmove, beforeMove_of_unchanged effect gaps first hrest]
      intro k hk
      rcases Nat.lt_succ_iff_lt_or_eq.mp hk with hk | rfl
      · exact hrest k hk
      · exact unchanged_of_changes_handle effect hlast
  · intro h k hk
    rw [beforeMove_of_unchanged effect gaps first fun j hj => h j (by omega)]

omit [DecidableEq α] in
theorem filterMap_getElem?_range (elems : List α) :
    ((List.range elems.length).filterMap fun k => elems[k]?) = elems := by
  induction elems with
  | nil => rfl
  | cons a elems ih =>
    rw [List.length_cons, List.range_succ_eq_map, List.filterMap_cons, List.filterMap_map]
    exact congrArg (a :: ·) ih

/-- The iterator that counts changes: the loop ends without throwing just
when no event handled meanwhile changes the list, and has then visited it. -/
theorem forEachBeside_changes :
    ((forEachBeside effect gaps first .changes).thrown = false ↔
        ∀ k < first.elems.length, ∀ e ∈ gaps k, effect first.elems e = first.elems) ∧
      ((forEachBeside effect gaps first .changes).thrown = false →
        (forEachBeside effect gaps first .changes).visited = first.elems) := by
  have hover : ∀ k < first.elems.length,
      (∀ j ≤ k, Check.changes.notices first (beforeMove effect gaps first j) = false) →
        (beforeMove effect gaps first k).elems[k]?.isSome := by
    intro k hk hpast
    simp only [Check.notices, bne_eq_false_iff_eq] at hpast
    have hsame := beforeMove_of_unchanged effect gaps first
      ((unchanged_iff effect gaps first k).mp hpast)
    simpa [hsame] using hk
  obtain ⟨hthrown, hvisited⟩ := forEach_spec .changes hover
  simp only [Check.notices, bne_eq_false_iff_eq] at hthrown
  have hunchanged := hthrown.trans (unchanged_iff effect gaps first first.elems.length)
  refine ⟨hunchanged, fun h => (hvisited h).trans ?_⟩
  have hsame : ∀ k ∈ List.range first.elems.length,
      (beforeMove effect gaps first k).elems[k]? = first.elems[k]? := by
    intro k hk
    rw [beforeMove_of_unchanged effect gaps first fun j hj =>
      hunchanged.mp h j (Nat.lt_trans hj (List.mem_range.mp hk))]
  exact (List.filterMap_congr hsame).trans (filterMap_getElem?_range first.elems)

/-- The iterator that compares lengths: the loop ends without throwing just
when the list is as long at every move, and has then visited what was under
its index. -/
theorem forEachBeside_length :
    ((forEachBeside effect gaps first .length).thrown = false ↔
        ∀ k ≤ first.elems.length,
          (beforeMove effect gaps first k).elems.length = first.elems.length) ∧
      ((forEachBeside effect gaps first .length).thrown = false →
        (forEachBeside effect gaps first .length).visited =
          (List.range first.elems.length).filterMap fun k =>
            (beforeMove effect gaps first k).elems[k]?) := by
  have hover : ∀ k < first.elems.length,
      (∀ j ≤ k, Check.length.notices first (beforeMove effect gaps first j) = false) →
        (beforeMove effect gaps first k).elems[k]?.isSome := by
    intro k hk hpast
    have hlength := hpast k (Nat.le_refl k)
    simp only [Check.notices, bne_eq_false_iff_eq] at hlength
    simpa [hlength] using hk
  have hspec := forEach_spec .length hover
  simp only [Check.notices, bne_eq_false_iff_eq] at hspec
  exact hspec

end Handled

end LiveList

end GottaGo.Async
