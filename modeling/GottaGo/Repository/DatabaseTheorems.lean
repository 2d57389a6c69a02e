/-
GottaGo.Repository.DatabaseTheorems — what the methods of
`Repository/Database.lean` do when they run alone and nothing fails.

One lemma for each method; the ones that write give the database after
the call.
-/
import GottaGo.Firestore.Replay
import GottaGo.Model.DocumentsTheorems
import GottaGo.Repository.Database

namespace GottaGo.DatabaseRepository

open GottaGo.Async GottaGo.Firestore

variable (st : AppState) (userName : String)

/-- The write of `createUser`. -/
def createWrite (uid : String) (user : User) : Write Path :=
  .set (.users uid) (Doc.ofList user.toDocument)

/-- The write of `updateUser`. -/
def updateWrite (uid : String) (user : User) : Write Path :=
  .update (.users uid) (putAll user.toDocument)

/-- The document of a registered name. -/
def registration (userId : String) : Doc := Doc.ofList [("userId", .str userId)]

theorem eval_createUser {user : User} {uid : String} (hid : user.id = some uid) :
    Prog.eval (serve {}) (createUser user) st =
      (.ok (), st.commit (createWrite uid user)
        (st.store.put (.users uid) (Doc.ofList user.toDocument))) := by
  rw [createUser, eval_rethrowing_eq_ok, hid]
  simp [createWrite]

/-- `updateUser` returns just when there is a document to update. -/
theorem eval_updateUser {user : User} {uid : String} {st' : AppState}
    (hid : user.id = some uid) :
    Prog.eval (serve {}) (updateUser user) st = (.ok (), st') ↔
      ∃ s', (updateWrite uid user).apply st.store = some s' ∧
        st' = st.commit (updateWrite uid user) s' := by
  rw [updateUser, eval_rethrowing_eq_ok, hid]
  simp only [Fire.doc_some, Prog.bind_eq, Prog.bind]
  constructor
  · intro h
    cases hd : st.store.get (.users uid) with
    | none =>
      rw [eval_update_of_none st _ hd] at h
      cases h
    | some d =>
      have hw : (updateWrite uid user).apply st.store = some _ :=
        Write.apply_update_of_get hd
      have hu := eval_update st _ hw
      have heq : (Except.ok (), st') = (Except.ok (), st.commit (updateWrite uid user) _) :=
        h.symm.trans hu
      exact ⟨_, hw, (Prod.mk.inj heq).2⟩
  · intro h
    obtain ⟨s', hw, rfl⟩ := h
    exact eval_update st _ hw

theorem eval_deleteUserData {user : User} {uid : String} (hid : user.id = some uid) :
    Prog.eval (serve {}) (deleteUserData user) st =
      (.ok (), st.commit (.delete (.users uid)) (st.store.del (.users uid))) := by
  rw [deleteUserData, eval_rethrowing_eq_ok, hid]
  simp

theorem eval_checkUsernameAvailability :
    Prog.eval (serve {}) (checkUsernameAvailability userName) st =
      (.ok (st.store.get (.usernames userName)).isNone, st) := by
  rw [checkUsernameAvailability, eval_rethrowing_eq_ok]
  simp

/-- `checkUsernameExists` finds the user a name is registered to. -/
theorem eval_checkUsernameExists {userId : String}
    (h : st.store.field (.usernames userName) "userId" = some (.str userId)) :
    Prog.eval (serve {}) (checkUsernameExists userName) st = (.ok (some userId), st) := by
  rw [checkUsernameExists, eval_rethrowing_eq_ok]
  unfold Store.field at h
  cases hd : st.store.get (.usernames userName) with
  | none =>
    rw [hd] at h
    cases h
  | some d =>
    rw [hd] at h
    have hf : fieldOf (some d) "userId" = .ok (.str userId) :=
      fieldOf_eq_ok.mpr ⟨d, rfl, h⟩
    simp [hd, hf, bind, Except.bind, asString?]

theorem eval_registerUsername (userId : String) :
    Prog.eval (serve {}) (registerUsername userName userId) st =
      (.ok (), st.commit (.set (.usernames userName) (registration userId))
        (st.store.put (.usernames userName) (registration userId))) := by
  rw [registerUsername, eval_rethrowing_eq_ok]
  simp [registration]

theorem eval_deregisterUsername :
    Prog.eval (serve {}) (deregisterUsername userName) st =
      (.ok (), st.commit (.delete (.usernames userName))
        (st.store.del (.usernames userName))) := by
  rw [deregisterUsername, eval_rethrowing_eq_ok]
  simp

end GottaGo.DatabaseRepository
