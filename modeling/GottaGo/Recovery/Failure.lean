/-
GottaGo.Recovery.Failure — a membership operation one of whose writes
throws.

Each operation writes the list's side and the user's side one after the
other, and stops at the write that throws, whether it then rethrows or
returns null. So the writes before that one stay (`failed_store`). With
two writes this is all or nothing if the first one throws, and otherwise
only if one of the two writes would have changed nothing anyway
(`membership_failure`).
-/
import GottaGo.Recovery.Retry

namespace GottaGo

open GottaGo.Async GottaGo.Firestore

/-- The operations that change both sides of a membership. -/
inductive MembershipOp where
  | createPlaceList (firebaseUser : AuthUser) (placeList : PlaceList)
  | addContributorToList (placeListId userId : String)
  | removeContributorFromList (placeList : PlaceList) (userId : String)
  | removePlaceList (firebaseUser : AuthUser) (placeList : PlaceList)

namespace MembershipOp

def call : MembershipOp → App Unit
  | .createPlaceList firebaseUser placeList =>
    PlaceListRepository.createPlaceList firebaseUser placeList
  | .addContributorToList placeListId userId =>
    (PlaceListRepository.addContributorToList placeListId userId).void
  | .removeContributorFromList placeList userId =>
    PlaceListRepository.removeContributorFromList placeList userId
  | .removePlaceList firebaseUser placeList =>
    PlaceListRepository.removePlaceList firebaseUser placeList

/-- The user the operation waits for can be read. -/
def Ready (s : Store Path) : MembershipOp → Prop
  | .addContributorToList _ userId => Readable s userId
  | .removeContributorFromList _ userId => Readable s userId
  | _ => True

/-- The writes of the operation. `x` is the id drawn for a new document. -/
def script (x : String) : MembershipOp → List (Write Path)
  | .createPlaceList firebaseUser placeList =>
    match (placeList.copyWith { placeListId := some x }).toDocument with
    | .ok fields =>
      [.set (.placeLists x) (Doc.ofList fields), linkOwnerWrite firebaseUser.uid x]
    | .error _ => []
  | .addContributorToList placeListId userId =>
    [nameContributorWrite placeListId userId, linkOwnerWrite userId placeListId]
  | .removeContributorFromList placeList userId =>
    [dropContributorWrite (placeList.placeListId.getD x) userId,
      unlinkWrite userId placeList.placeListId]
  | .removePlaceList firebaseUser placeList =>
    unlinkWrite firebaseUser.uid placeList.placeListId ::
      if placeList.listOwnerId = firebaseUser.uid
        then [.delete (.placeLists (placeList.placeListId.getD x))] else []

theorem length_script_le (x : String) (op : MembershipOp) : (op.script x).length ≤ 2 := by
  cases op with
  | createPlaceList firebaseUser placeList =>
    cases h : (placeList.copyWith { placeListId := some x }).toDocument <;> simp [script, h]
  | removePlaceList firebaseUser placeList =>
    by_cases h : placeList.listOwnerId = firebaseUser.uid <;> simp [script, h]
  | _ => exact Nat.le_refl 2

/-- The database after the call in which write number `k` throws. -/
def failed (ids : Nat → String) (op : MembershipOp) (st : AppState) (k : Nat) : Store Path :=
  (Prog.eval (throwing ids (st.log.length + k)) op.call st).2.store

end MembershipOp

section Failed

variable {ids : Nat → String} {st : AppState} {k : Nat} {sk : Store Path}

/-- A call that makes its writes in order, after a draw perhaps, makes those
before the one that throws. -/
theorem failed_inOrder {ws : List (Write Path)} {t : App Unit} {st₁ : AppState}
    (hstore : st₁.store = st.store) (hlog : st₁.log = st.log) (hk : k < ws.length)
    (hsk : applyAll st.store (ws.take k) = some sk)
    (h : (Prog.eval (throwing ids (st.log.length + k)) t st).2 =
      (Prog.eval (throwing ids (st.log.length + k)) (inOrder ws) st₁).2) :
    (Prog.eval (throwing ids (st.log.length + k)) t st).2.store = sk := by
  rw [← hstore] at hsk
  obtain ⟨st', heval, hst'⟩ := eval_throwing_inOrder ids hk hsk
  rw [hlog] at heval
  rw [h, heval, hst']

variable (ids) in
/-- The user who has arrived, when reads succeed. -/
theorem userArrived_throwing {u : String} (h : Readable st.store u) (n : Nat) :
    ∃ snap user, Prog.eval (throwing ids n) (Fire.snapshot (.users u)) st = (.ok snap, st) ∧
      PlaceListRepository.userArrived u snap = some user ∧ user.id = some u := by
  obtain ⟨snap, hsnap, ⟨hnot, -⟩ | ⟨user, -, hid, hu⟩⟩ := userArrived_supplied ids u st
  · exact absurd h hnot
  · exact ⟨snap, user, hsnap, hu, hid⟩

theorem failed_createPlaceList {firebaseUser : AuthUser} {placeList : PlaceList}
    (hk : k < ((MembershipOp.createPlaceList firebaseUser placeList).script
      (ids st.drawn.length)).length)
    (hsk : applyAll st.store (((MembershipOp.createPlaceList firebaseUser placeList).script
      (ids st.drawn.length)).take k) = some sk) :
    (MembershipOp.createPlaceList firebaseUser placeList).failed ids st k = sk := by
  set x := ids st.drawn.length with hx
  cases hfields : (placeList.copyWith { placeListId := some x }).toDocument with
  | error e => simp [MembershipOp.script, hfields] at hk
  | ok fields =>
    simp only [MembershipOp.script, hfields] at hk hsk
    have hcall : (Prog.eval (throwing ids (st.log.length + k))
        (PlaceListRepository.createPlaceList firebaseUser placeList) st).2 =
        (Prog.eval (throwing ids (st.log.length + k))
          (inOrder [.set (.placeLists x) (Doc.ofList fields),
            linkOwnerWrite firebaseUser.uid x]) (st.draw x)).2 := by
      have hnew : Prog.eval (throwing ids (st.log.length + k)) (Fire.newDoc Path.placeLists) st =
        (.ok x, st.draw x) := rfl
      rw [PlaceListRepository.createPlaceList, eval_rethrowing_snd, ← inOrder_two]
      simp only [Prog.bind_eq, Prog.eval_bind, hnew, hfields]
      rfl
    exact failed_inOrder (st.draw_store x) rfl hk hsk hcall

theorem failed_addContributorToList {l u : String} (hread : Readable st.store u)
    (hk : k < 2)
    (hsk : applyAll st.store ([nameContributorWrite l u, linkOwnerWrite u l].take k) =
      some sk) :
    (MembershipOp.addContributorToList l u).failed ids st k = sk := by
  obtain ⟨snap, user, hsnap, hu, hid⟩ :=
    userArrived_throwing ids hread (st.log.length + k)
  obtain ⟨st', heval, hst'⟩ := eval_throwing_inOrder ids hk hsk
  have hcall := eval_addContributorToList (l := l) hsnap hu hid
  rw [Fire.onFirebaseException, Prog.eval_tryCatch, Prog.eval_bind, heval] at hcall
  show (Prog.eval (throwing ids (st.log.length + k))
    (PlaceListRepository.addContributorToList l u).void st).2.store = sk
  rw [Prog.void, Prog.eval_bind, hcall]
  exact hst'

theorem failed_removeContributorFromList {placeList : PlaceList} {u : String}
    (hread : Readable st.store u) (hk : k < 2)
    (hsk : applyAll st.store
      ([dropContributorWrite (placeList.placeListId.getD (ids st.drawn.length)) u,
        unlinkWrite u placeList.placeListId].take k) = some sk) :
    (MembershipOp.removeContributorFromList placeList u).failed ids st k = sk := by
  obtain ⟨snap, user, hsnap, hu, -⟩ :=
    userArrived_throwing ids hread (st.log.length + k)
  obtain ⟨st₁, hstore, hlog, hcall⟩ :=
    eval_removeContributorFromList placeList hsnap rfl hu
  exact failed_inOrder hstore hlog (by simpa using hk) hsk hcall

/-- The owner of a list without an id deletes a new document. -/
theorem failed_removePlaceList {firebaseUser : AuthUser} {placeList : PlaceList}
    (hk : k < ((MembershipOp.removePlaceList firebaseUser placeList).script
      (ids st.drawn.length)).length)
    (hsk : applyAll st.store (((MembershipOp.removePlaceList firebaseUser placeList).script
      (ids st.drawn.length)).take k) = some sk) :
    (MembershipOp.removePlaceList firebaseUser placeList).failed ids st k = sk := by
  by_cases howner : placeList.listOwnerId = firebaseUser.uid
  · cases hl : placeList.placeListId with
    | some l =>
      simp only [MembershipOp.script, hl, howner, if_true, Option.getD_some] at hk hsk
      refine failed_inOrder rfl rfl hk hsk ?_
      rw [MembershipOp.call, PlaceListRepository.removePlaceList, eval_rethrowing_snd,
        ← inOrder_two]
      simp only [hl, howner, if_true]
      rfl
    | none =>
      simp only [MembershipOp.script, hl, howner, if_true, Option.getD_none, List.length_cons,
        List.length_nil] at hk hsk
      have hfirst : (Fire.update (.users firebaseUser.uid)
          [("placeListIds", .arrayRemove [.ofString? none])] : App Unit) =
            Prog.await (Req.write (unlinkWrite firebaseUser.uid none)) := rfl
      rw [MembershipOp.failed, MembershipOp.call, PlaceListRepository.removePlaceList,
        eval_rethrowing_snd, hl, hfirst, Prog.bind_eq, Prog.eval_bind]
      rcases k with _ | _ | k
      · cases hsk
        rw [Nat.add_zero, eval_throwing_fault]
      · rw [List.take_succ_cons, List.take_zero, applyAll_cons] at hsk
        obtain ⟨s₁, hs₁, hrest⟩ := Option.bind_eq_some_iff.mp hsk
        cases hrest
        rw [eval_throwing_some (by omega) hs₁]
        simp only [howner, if_true]
        -- the draw leaves the log, so the deletion is write number 1
        have hlog : st.log.length + (0 + 1) =
            ((st.commit (unlinkWrite firebaseUser.uid none) sk).draw
              (ids st.drawn.length)).log.length := by
          simp [State.draw]
        rw [hlog]
        exact congrArg (fun r => r.2.store) (eval_throwing_fault ids
          (.delete (Path.placeLists (ids st.drawn.length)))
          ((st.commit (unlinkWrite firebaseUser.uid none) sk).draw (ids st.drawn.length)))
      · omega
  · simp only [MembershipOp.script, howner, if_false] at hk hsk
    refine failed_inOrder rfl rfl hk hsk ?_
    rw [MembershipOp.call, PlaceListRepository.removePlaceList, eval_rethrowing_snd]
    simp only [howner, if_false]
    rfl

namespace MembershipOp

/-- A call whose write number `k` throws, the writes before it going
through, leaves those writes and no others. -/
theorem failed_store {op : MembershipOp} (hready : op.Ready st.store)
    (hk : k < (op.script (ids st.drawn.length)).length)
    (hsk : applyAll st.store ((op.script (ids st.drawn.length)).take k) = some sk) :
    op.failed ids st k = sk := by
  cases op with
  | createPlaceList firebaseUser placeList => exact failed_createPlaceList hk hsk
  | addContributorToList placeListId userId => exact failed_addContributorToList hready hk hsk
  | removeContributorFromList placeList userId =>
    exact failed_removeContributorFromList hready hk hsk
  | removePlaceList firebaseUser placeList => exact failed_removePlaceList hk hsk

/-- The database `s` is as before the writes, or as after all of them. -/
def AllOrNothing (before : Store Path) (ws : List (Write Path)) (s : Store Path) : Prop :=
  s = before ∨ applyAll before ws = some s

end MembershipOp

end Failed

/-- A call of a membership operation whose write number `k` throws leaves
the writes before it. That is the database before the call, or after a
complete one, just when the first write is the one that throws, or it
changed nothing, or the second one would have changed nothing. -/
theorem membership_failure (op : MembershipOp) (ids : Nat → String) (st : AppState)
    (hready : op.Ready st.store) {k : Nat}
    (hk : k < (op.script (ids st.drawn.length)).length) {sk : Store Path}
    (hsk : applyAll st.store ((op.script (ids st.drawn.length)).take k) = some sk) :
    op.failed ids st k = sk ∧
      (MembershipOp.AllOrNothing st.store (op.script (ids st.drawn.length)) (op.failed ids st k) ↔
        k = 0 ∨ (∀ w ∈ (op.script (ids st.drawn.length)).take 1,
            w.apply st.store = some st.store) ∨
          ∀ w ∈ (op.script (ids st.drawn.length)).drop 1, w.apply sk = some sk) := by
  have hfailed := MembershipOp.failed_store hready hk hsk
  refine ⟨hfailed, ?_⟩
  rw [hfailed]
  have hlen := op.length_script_le (ids st.drawn.length)
  generalize op.script (ids st.drawn.length) = ws at hk hsk hlen
  cases k with
  | zero =>
    cases hsk
    exact iff_of_true (.inl rfl) (.inl rfl)
  | succ k =>
    obtain rfl : k = 0 := by omega
    obtain ⟨w₁, w₂, rfl⟩ := List.length_eq_two.mp (show ws.length = 2 by omega)
    have hfirst : w₁.apply st.store = some sk := by
      rw [← hsk, List.take_succ_cons, List.take_zero, applyAll_cons]
      cases w₁.apply st.store <;> rfl
    have hall : applyAll st.store [w₁, w₂] = w₂.apply sk := by
      rw [applyAll_cons, hfirst, Option.bind_some, applyAll_cons]
      cases w₂.apply sk <;> rfl
    simp [MembershipOp.AllOrNothing, hall, hfirst]

/-- `bob` is added to `rome`, and the write to his document throws. -/
def addBob : MembershipOp := .addContributorToList "rome" "bob"

theorem addBob_ready : addBob.Ready bobInvited := by
  have hdoc : bobInvited.get (.users "bob") = some (userDoc "bob" []) := by
    simp [bobInvited, Store.get_ofList_cons]
  show ∃ user, User.fromSnapshot "bob" (bobInvited.get (.users "bob")) = .ok user
  rw [hdoc]
  exact userDoc_readable "bob" []

/-- He is named by the list, as the first write leaves it. -/
theorem membership_failure_bob :
    ∃ sk, applyAll bobInvited [nameContributorWrite "rome" "bob"] = some sk ∧
      addBob.failed exes { store := bobInvited } 1 = sk := by
  obtain ⟨sk, hsk⟩ := Option.isSome_iff_exists.mp
    (show (applyAll bobInvited [nameContributorWrite "rome" "bob"]).isSome by decide)
  have hbob := membership_failure addBob exes { store := bobInvited } addBob_ready
    (k := 1) (by decide) hsk
  exact ⟨sk, hsk, hbob.1⟩

/-- He is named by the list and knows nothing of it. -/
theorem membership_half_done :
    ¬ ∀ (op : MembershipOp) (ids : Nat → String) (st : AppState), op.Ready st.store →
      ∀ k, k < (op.script (ids st.drawn.length)).length →
      (applyAll st.store ((op.script (ids st.drawn.length)).take k)).isSome →
      MembershipOp.AllOrNothing st.store (op.script (ids st.drawn.length))
        (op.failed ids st k) := by
  intro h
  rcases h addBob exes { store := bobInvited } addBob_ready 1 (by decide) (by decide)
    with hbefore | hafter
  · have hnamed := congrArg (Store.elemsAt · (.placeLists "rome") "contributorIds") hbefore
    exact absurd hnamed (by decide)
  · have hlinked := congrArg (Option.map (Store.elemsAt · (.users "bob") "placeListIds")) hafter
    exact absurd hlinked (by decide)

end GottaGo
