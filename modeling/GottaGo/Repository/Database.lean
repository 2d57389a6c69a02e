/-
GottaGo.Repository.Database — `lib/repository/database/database_repository.dart`:
the user documents and the username directory.

Every method of the repositories wraps its awaits in
`try { … } on FirebaseException catch (e) { …; throw Exception(); }`;
`rethrowing` is that wrapper. The snack bar and the crash report of the
handler show nothing to the rest of the program and are left out.

`usernames/{userName}` holds `{'userId': …}`. Registering is an
unconditional `set` and deregistering an unconditional `delete`; only the
callers look first.
-/
import GottaGo.Firestore.Client
import GottaGo.Model.Documents

namespace GottaGo

open GottaGo.Async GottaGo.Firestore

/-- The signed-in account (`auth.User`). -/
structure AuthUser where
  uid : String
  displayName : Option String := none

/-- The listeners that stay open, with what their callbacks capture. -/
inductive Listener where
  /-- Opened by `inviteContributorToList` on the invitee's document. -/
  | inviteContributor (userId : String) (firebaseUser : AuthUser)
      (placeList : PlaceList) (senderUsername : String)

/-- An asynchronous function of the app. -/
abbrev App (α : Type) := Fire Path Listener α

/-- The database of the app. -/
abbrev AppState := State Path Listener

/-- `try { t } on FirebaseException catch (e) { throw Exception(); }`. -/
def rethrowing {α : Type} (t : App α) : App α :=
  Fire.onFirebaseException t (.raise .exception)

/-- The wrapper only changes what is thrown. -/
@[simp] theorem eval_rethrowing_eq_ok {α σ : Type}
    {srv : (q : Req Path Listener) → σ → Except Err (Ans q) × σ} {t : App α}
    {a : α} {s s' : σ} :
    Prog.eval srv (rethrowing t) s = (.ok a, s') ↔ Prog.eval srv t s = (.ok a, s') := by
  rw [rethrowing, Fire.onFirebaseException, Prog.eval_tryCatch]
  rcases Prog.eval srv t s with ⟨e | b, s₁⟩
  · by_cases he : e = .firebase <;> simp [he]
  · simp

/-- The wrapper changes nothing in the database. -/
theorem eval_rethrowing_snd {α σ : Type}
    {srv : (q : Req Path Listener) → σ → Except Err (Ans q) × σ} {t : App α} (s : σ) :
    (Prog.eval srv (rethrowing t) s).2 = (Prog.eval srv t s).2 := by
  rw [rethrowing, Fire.onFirebaseException, Prog.eval_tryCatch]
  rcases Prog.eval srv t s with ⟨e | b, s₁⟩
  · by_cases he : e = .firebase <;> simp [he]
  · rfl

namespace DatabaseRepository

open Fire

def createUser (user : User) : App Unit :=
  rethrowing do
    let ref ← doc .users user.id
    set ref user.toDocument

def updateUser (user : User) : App Unit :=
  rethrowing do
    let ref ← doc .users user.id
    update ref (user.toDocument.map fun f => (f.1, .put f.2))

def deleteUserData (user : User) : App Unit :=
  rethrowing do
    let ref ← doc .users user.id
    delete ref

def checkUsernameAvailability (userName : String) : App Bool :=
  rethrowing do
    let snap ← get (.usernames userName)
    return snap.isNone

def checkUsernameExists (userName : String) : App (Option String) :=
  rethrowing do
    let snap ← get (.usernames userName)
    if snap.isNone then return none
    else Prog.ofExcept (fieldOf snap "userId" >>= asString?)

def registerUsername (userName userId : String) : App Unit :=
  rethrowing do
    set (.usernames userName) [("userId", .str userId)]

def deregisterUsername (userName : String) : App Unit :=
  rethrowing do
    delete (.usernames userName)

end DatabaseRepository

end GottaGo
