/-
GottaGo.Accounts.Authentication — `lib/repository/auth_repository.dart`: the
methods by which the app signs in, signs out and deletes an account.

Firebase Authentication holds accounts, each with the logins that are
linked to it (`providerData`), and one client has at most one of them
signed in. It is a parameter, an `AuthService`, with what is documented of it
as hypotheses (`AuthService.Documented`). `signInWithCredential` signs in the
account of a login, and creates one if there is none;
`reauthenticateWithCredential` refuses a login that is not the current
account's; `delete` removes the current account and signs out. The app links
no further login to an account.

Which login the user picks in the dialog of a provider is the user's
choice, and any call may throw. Given both, `authServe` is such a service.
-/
import GottaGo.Async.Prog

namespace GottaGo

open GottaGo.Async

/-- What somebody is at a provider. -/
structure Login where
  providerId : String
  sub : String
  deriving DecidableEq, Repr

/-- An account (`auth.User`). -/
structure Account where
  uid : String
  providerData : List Login
  displayName : Option String := none
  deriving DecidableEq, Repr

/-- Firebase Authentication, as a client sees it. -/
structure Auth where
  accounts : List Account := []
  /-- The uid of the account that is signed in. -/
  currentUser : Option String := none
  deriving DecidableEq, Repr

/-- What is thrown. -/
inductive AuthErr where
  | firebaseAuthException
  | signInWithAppleException
  | exception
  | stateError
  | typeError
  /-- `throw auth.FirebaseAuthException`, which throws the class itself. -/
  | thrownType
  deriving DecidableEq, Repr

/-- `auth.UserCredential`. -/
structure UserCredential where
  user : String
  credential : Option Login

/-- What `SignInWithApple` answers with. The identity token stands for the
login. -/
structure AppleIDCredential where
  identityToken : Option Login
  givenName : Option String
  familyName : Option String

inductive AuthReq where
  | currentUser
  /-- `GoogleSignIn().signIn()` and the authentication of what it returns. -/
  | googleSignIn
  | getAppleIDCredential
  | signInWithProvider
  | signInWithCredential (credential : Option Login)
  | updateDisplayName (displayName : String)
  | reauthenticateWithCredential (credential : Login)
  | delete
  | signOut

@[reducible] def AuthReq.Ans : AuthReq → Type
  | .currentUser => Option Account
  | .googleSignIn => Option Login
  | .getAppleIDCredential => AppleIDCredential
  | .signInWithProvider => UserCredential
  | .signInWithCredential _ => UserCredential
  | .updateDisplayName _ | .reauthenticateWithCredential _ | .delete | .signOut => Unit

/-- An asynchronous function of the repository. -/
abbrev AuthProg (α : Type) := Prog AuthReq AuthReq.Ans AuthErr α

/-! ## The repository -/

namespace AuthRepository

/-- `x!`. -/
def bang {α : Type} : Option α → AuthProg α
  | some a => .ret a
  | none => .raise .typeError

/-- `try { t } on caught catch (e) { …; throw Exception(); }`. -/
def catching {α : Type} (caught : AuthErr) (t : AuthProg α) : AuthProg α :=
  t.tryCatch fun e => if e = caught then .raise .exception else .raise e

def signOut : AuthProg Unit := Prog.await AuthReq.signOut

/-- What the first dialog answers is not used. -/
def signInWithGoogle : AuthProg String :=
  catching .firebaseAuthException do
    let _ ← Prog.await AuthReq.googleSignIn
    let credential ← Prog.await AuthReq.signInWithProvider
    let credential ← bang credential.credential
    let googleCredentials ← Prog.await (AuthReq.signInWithCredential (some credential))
    return googleCredentials.user

def signInWithApple : AuthProg String :=
  catching .signInWithAppleException do
    let appleIdCredential ← Prog.await AuthReq.getAppleIDCredential
    let credential ← bang appleIdCredential.identityToken
    let userCredential ← Prog.await (AuthReq.signInWithCredential (some credential))
    match appleIdCredential.givenName, appleIdCredential.familyName with
    | some givenName, some familyName => do
      Prog.await (AuthReq.updateDisplayName (givenName ++ " " ++ familyName))
      return userCredential.user
    | _, _ => return userCredential.user

/-- A dialog that was dismissed leaves a credential without tokens. -/
def reauthenticateWithGoogle : AuthProg UserCredential :=
  catching .firebaseAuthException do
    let credential ← Prog.await AuthReq.googleSignIn
    Prog.await (AuthReq.signInWithCredential credential)

def reauthenticateWithApple : AuthProg UserCredential :=
  catching .signInWithAppleException do
    let appleIdCredential ← Prog.await AuthReq.getAppleIDCredential
    let credential ← bang appleIdCredential.identityToken
    Prog.await (AuthReq.signInWithCredential (some credential))

/-- The `switch` over the provider. -/
def reauthenticate (providerId : String) : AuthProg (Option UserCredential) :=
  if providerId = "google.com" then do
    let userCredential ← reauthenticateWithGoogle
    return some userCredential
  else if providerId = "apple.com" then do
    let userCredential ← reauthenticateWithApple
    return some userCredential
  else return none

/-- The current user is read three times. -/
def deleteUser : AuthProg Unit :=
  catching .firebaseAuthException do
    let currentUser ← Prog.await AuthReq.currentUser
    let currentUser ← bang currentUser
    match currentUser.providerData with
    | [] => .raise .stateError
    | first :: _ => do
      let userCredential ← reauthenticate first.providerId
      match userCredential with
      | none => .raise .thrownType
      | some userCredential => do
        let currentUser ← Prog.await AuthReq.currentUser
        let _ ← bang currentUser
        let credential ← bang userCredential.credential
        Prog.await (AuthReq.reauthenticateWithCredential credential)
        let currentUser ← Prog.await AuthReq.currentUser
        let _ ← bang currentUser
        Prog.await AuthReq.delete

end AuthRepository

/-! ## The service -/

/-- How the service answers a call, or what the call throws. -/
abbrev AuthService := (q : AuthReq) → Auth → Except AuthErr q.Ans × Auth

namespace Auth

/-- The account that has the login. -/
def owner? (a : Auth) (login : Login) : Option Account :=
  a.accounts.find? fun account => login ∈ account.providerData

/-- The account that is signed in. -/
def current? (a : Auth) : Option Account :=
  a.accounts.find? fun account => some account.uid = a.currentUser

/-- The login is one of the current account's. -/
def isCurrent (a : Auth) (login : Login) : Bool :=
  a.current?.any fun account => login ∈ account.providerData

/-- Account `user`, which has the login, is signed in; it is a new one if there
was none. -/
inductive SignedIn (a : Auth) (login : Login) : String → Auth → Prop
  | existing {account : Account} : account ∈ a.accounts → login ∈ account.providerData →
      SignedIn a login account.uid { a with currentUser := some account.uid }
  | created {user : String} (displayName : Option String) :
      (∀ account ∈ a.accounts, login ∉ account.providerData) →
      user ∉ a.accounts.map Account.uid →
      SignedIn a login user
        { accounts := a.accounts ++
            [{ uid := user, providerData := [login], displayName := displayName }]
          currentUser := some user }

/-- The account that is signed in is removed. -/
def delete (a : Auth) : Auth where
  accounts := a.accounts.filter fun account => some account.uid ≠ a.currentUser
  currentUser := none

def signOut (a : Auth) : Auth := { a with currentUser := none }

def updateDisplayName (a : Auth) (displayName : String) : Auth where
  accounts := a.accounts.map fun account =>
    if some account.uid = a.currentUser then { account with displayName := some displayName }
    else account
  currentUser := a.currentUser

end Auth

/-- What is documented of the calls. -/
structure AuthService.Documented (service : AuthService) : Prop where
  /-- A call that throws has had no effect. -/
  throws : ∀ q a e a', service q a = (.error e, a') → a' = a
  currentUser : ∀ a, service .currentUser a = (.ok a.current?, a)
  /-- The dialogs of the providers sign nobody in to Firebase. -/
  googleSignIn : ∀ a x a', service .googleSignIn a = (.ok x, a') → a' = a
  getAppleIDCredential : ∀ a x a', service .getAppleIDCredential a = (.ok x, a') → a' = a
  signInWithProvider : ∀ a x a', service .signInWithProvider a = (.ok x, a') →
    ∃ login, a.SignedIn login x.user a'
  /-- A credential without tokens is refused. -/
  signInWithCredential : ∀ a credential x a',
    service (.signInWithCredential credential) a = (.ok x, a') →
    ∃ login, credential = some login ∧ a.SignedIn login x.user a'
  updateDisplayName : ∀ a displayName a',
    service (.updateDisplayName displayName) a = (.ok (), a') →
    a' = a.updateDisplayName displayName
  /-- So is a login of somebody else. -/
  reauthenticateWithCredential : ∀ a login a',
    service (.reauthenticateWithCredential login) a = (.ok (), a') →
    a.isCurrent login = true ∧ a' = a
  delete : ∀ a a', service .delete a = (.ok (), a') → a' = a.delete
  signOut : ∀ a a', service .signOut a = (.ok (), a') → a' = a.signOut

/-- Without tokens nobody is signed in. -/
theorem AuthService.Documented.refuses {service : AuthService} (h : service.Documented)
    (a : Auth) : ∃ e, service (.signInWithCredential none) a = (.error e, a) := by
  obtain ⟨r, a', hserve⟩ : ∃ r a', service (.signInWithCredential none) a = (r, a') :=
    ⟨_, _, rfl⟩
  cases r with
  | error e =>
    refine ⟨e, ?_⟩
    rw [hserve, h.throws _ _ _ _ hserve]
  | ok x =>
    obtain ⟨login, hnone, -⟩ := h.signInWithCredential _ _ _ _ hserve
    cases hnone

/-! ## Such a service -/

/-- What decides how a call ends. -/
structure AuthOutcome where
  /-- What it throws, without an effect. -/
  fault : Option AuthErr := none
  /-- Who is picked in the dialog of a provider, if it is not dismissed. -/
  picked : Option String := none
  /-- The answer carries the credential. -/
  returned : Bool := true
  givenName : Option String := none
  familyName : Option String := none
  /-- The uid that is drawn for a new account. -/
  uid : String := ""

/-- The credential in the answer to a sign-in. -/
def AuthOutcome.credential (o : AuthOutcome) (login : Login) : Option Login :=
  if o.returned then some login else none

def Login.google (sub : String) : Login := { providerId := "google.com", sub := sub }

def Login.apple (sub : String) : Login := { providerId := "apple.com", sub := sub }

/-- The account of the login is signed in, a new one if there was none. A uid
that is taken is not drawn. -/
def Auth.signIn (a : Auth) (login : Login) (o : AuthOutcome) :
    Except AuthErr UserCredential × Auth :=
  match a.owner? login with
  | some account =>
    (.ok { user := account.uid, credential := o.credential login },
      { a with currentUser := some account.uid })
  | none =>
    if o.uid ∈ a.accounts.map Account.uid then (.error .firebaseAuthException, a)
    else
      (.ok { user := o.uid, credential := o.credential login },
        { accounts := a.accounts ++ [{ uid := o.uid, providerData := [login] }]
          currentUser := some o.uid })

/-- A call that does not throw. -/
def authAnswer (o : AuthOutcome) (a : Auth) : (q : AuthReq) → Except AuthErr q.Ans × Auth
  | .currentUser => (.ok a.current?, a)
  | .googleSignIn => (.ok (o.picked.map Login.google), a)
  | .getAppleIDCredential =>
    (.ok { identityToken := o.picked.map Login.apple, givenName := o.givenName,
           familyName := o.familyName }, a)
  | .signInWithProvider =>
    match o.picked with
    | none => (.error .firebaseAuthException, a)
    | some sub => a.signIn (Login.google sub) o
  | .signInWithCredential none => (.error .firebaseAuthException, a)
  | .signInWithCredential (some login) => a.signIn login o
  | .updateDisplayName displayName => (.ok (), a.updateDisplayName displayName)
  | .reauthenticateWithCredential login =>
    if a.isCurrent login then (.ok (), a) else (.error .firebaseAuthException, a)
  | .delete => (.ok (), a.delete)
  | .signOut => (.ok (), a.signOut)

/-- The service answers. Reading the current user is no call to it. -/
def authServe (o : AuthReq → AuthOutcome) : AuthService := fun q a =>
  match q with
  | .currentUser => (.ok a.current?, a)
  | q =>
    match (o q).fault with
    | some e => (.error e, a)
    | none => authAnswer (o q) a q

/-- A call throws without an effect, or is answered. -/
theorem authServe_cases (o : AuthReq → AuthOutcome) (q : AuthReq) (a : Auth) :
    (∃ e, authServe o q a = (.error e, a)) ∨ authServe o q a = authAnswer (o q) a q := by
  cases q with
  | currentUser => exact .inr rfl
  | _ =>
    unfold authServe
    dsimp only
    split
    · next e _ => exact .inl ⟨e, rfl⟩
    · exact .inr rfl

theorem Auth.owner?_eq_some {a : Auth} {login : Login} {account : Account}
    (h : a.owner? login = some account) :
    account ∈ a.accounts ∧ login ∈ account.providerData :=
  ⟨List.mem_of_find?_eq_some h, by simpa using List.find?_some h⟩

/-- What signing in can do. -/
theorem Auth.signIn_cases (a : Auth) (login : Login) (o : AuthOutcome) :
    o.uid ∈ a.accounts.map Account.uid ∧
        a.signIn login o = (.error .firebaseAuthException, a) ∨
      ∃ user a', a.signIn login o = (.ok { user := user, credential := o.credential login }, a') ∧
        a.SignedIn login user a' := by
  unfold signIn
  cases howner : a.owner? login with
  | some account =>
    obtain ⟨hmem, hlogin⟩ := owner?_eq_some howner
    exact .inr ⟨_, _, rfl, .existing hmem hlogin⟩
  | none =>
    by_cases huid : o.uid ∈ a.accounts.map Account.uid
    · exact .inl ⟨huid, by simp only [if_pos huid]⟩
    · refine .inr ⟨o.uid, _, by simp only [if_neg huid],
        .created none (fun account hmem => ?_) huid⟩
      have hfind := List.find?_eq_none.mp howner account hmem
      simpa using hfind

/-- Signing in is as documented. -/
theorem Auth.signedIn_of_signIn {a a' : Auth} {login : Login} {o : AuthOutcome}
    {x : UserCredential} (h : a.signIn login o = (.ok x, a')) : a.SignedIn login x.user a' := by
  rcases a.signIn_cases login o with ⟨-, herror⟩ | ⟨user, a₁, hok, hsigned⟩
  · rw [herror] at h
    cases h
  · rw [hok] at h
    cases h
    exact hsigned

/-- So is what throws, or is answered. -/
theorem authAnswer_throws {o : AuthOutcome} {a a' : Auth} {q : AuthReq} {e : AuthErr}
    (h : authAnswer o a q = (.error e, a')) : a' = a := by
  have hsignIn : ∀ login, a.signIn login o = (.error e, a') → a' = a := by
    intro login hlogin
    rcases a.signIn_cases login o with ⟨-, herror⟩ | ⟨user, a₁, hok, -⟩
    · rw [herror] at hlogin
      exact (Prod.mk.inj hlogin).2.symm
    · rw [hok] at hlogin
      cases hlogin
  cases q with
  | signInWithProvider =>
    unfold authAnswer at h
    dsimp only at h
    split at h
    · exact (Prod.mk.inj h).2.symm
    · exact hsignIn _ h
  | signInWithCredential credential =>
    cases credential with
    | none => exact (Prod.mk.inj h).2.symm
    | some login => exact hsignIn login h
  | reauthenticateWithCredential login =>
    unfold authAnswer at h
    dsimp only at h
    split at h
    · cases h
    · exact (Prod.mk.inj h).2.symm
  | _ => cases h

theorem documented_authServe (o : AuthReq → AuthOutcome) : (authServe o).Documented := by
  have hanswer : ∀ {q a x a'}, authServe o q a = (.ok x, a') →
      authAnswer (o q) a q = (.ok x, a') := by
    intro q a x a' h
    rcases authServe_cases o q a with ⟨e, heq⟩ | heq
    · rw [heq] at h
      cases h
    · exact heq.symm.trans h
  constructor
  case throws =>
    intro q a e a' h
    rcases authServe_cases o q a with ⟨e', heq⟩ | heq
    · rw [heq] at h
      exact (Prod.mk.inj h).2.symm
    · exact authAnswer_throws (heq.symm.trans h)
  case currentUser => exact fun _ => rfl
  case googleSignIn => exact fun a x a' h => (Prod.mk.inj (hanswer h)).2.symm
  case getAppleIDCredential => exact fun a x a' h => (Prod.mk.inj (hanswer h)).2.symm
  case signInWithProvider =>
    intro a x a' h
    have h := hanswer h
    unfold authAnswer at h
    dsimp only at h
    split at h
    · cases h
    · exact ⟨_, Auth.signedIn_of_signIn h⟩
  case signInWithCredential =>
    intro a credential x a' h
    cases credential with
    | none => cases hanswer h
    | some login => exact ⟨login, rfl, Auth.signedIn_of_signIn (hanswer h)⟩
  case updateDisplayName => exact fun a name a' h => (Prod.mk.inj (hanswer h)).2.symm
  case reauthenticateWithCredential =>
    intro a login a' h
    have h := hanswer h
    unfold authAnswer at h
    dsimp only at h
    split at h
    · next hcurrent => exact ⟨hcurrent, (Prod.mk.inj h).2.symm⟩
    · cases h
  case delete => exact fun a a' h => (Prod.mk.inj (hanswer h)).2.symm
  case signOut => exact fun a a' h => (Prod.mk.inj (hanswer h)).2.symm

/-! ## What every call keeps -/

/-- What the app has made of the accounts: each was created by signing in with
a login, and no two have a uid or a login in common. -/
structure Auth.Consistent (a : Auth) : Prop where
  uids : (a.accounts.map Account.uid).Nodup
  logins : (a.accounts.map Account.providerData).Nodup
  one : ∀ account ∈ a.accounts, ∃ login, account.providerData = [login]
  current : ∀ u, a.currentUser = some u → u ∈ a.accounts.map Account.uid

end GottaGo
