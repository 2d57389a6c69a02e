/-
GottaGo.Accounts.Reauthentication — which account `DeleteAccount` deletes.

To delete an account the app has its user sign in once more. The dialog of
the provider lets the user pick any login, and the answer is not compared
with the account that is to go: `signInWithCredential` makes the account of
the picked login the current one, and it is the current account that is
deleted. What `SettingsBloc` deletes from the database is the document of
the user that the event names.
-/
import GottaGo.Accounts.Authentication
import GottaGo.Accounts.Deletion
import Mathlib.Data.List.Nodup

namespace GottaGo

open GottaGo.Async GottaGo.Firestore

variable {service : AuthService} {a a' : Auth} {login : Login}

/-! ## Accounts -/

namespace Auth

theorem current?_eq_some {account : Account} (h : a.current? = some account) :
    account ∈ a.accounts ∧ a.currentUser = some account.uid := by
  refine ⟨List.mem_of_find?_eq_some h, ?_⟩
  have hcur := List.find?_some h
  exact (of_decide_eq_true hcur).symm

namespace Consistent

/-- An account has one login. -/
theorem providerData_eq (h : a.Consistent) {account : Account} (hmem : account ∈ a.accounts)
    (hlogin : login ∈ account.providerData) : account.providerData = [login] := by
  obtain ⟨login', heq⟩ := h.one account hmem
  rw [heq, List.mem_singleton] at hlogin
  rw [heq, hlogin]

/-- A login belongs to one account. -/
theorem eq_of_login (h : a.Consistent) {x y : Account} (hx : x ∈ a.accounts)
    (hy : y ∈ a.accounts) (hlx : login ∈ x.providerData) (hly : login ∈ y.providerData) :
    x = y := by
  refine List.inj_on_of_nodup_map h.logins hx hy ?_
  rw [h.providerData_eq hx hlx, h.providerData_eq hy hly]

theorem eq_of_uid (h : a.Consistent) {x y : Account} (hx : x ∈ a.accounts)
    (hy : y ∈ a.accounts) (huid : x.uid = y.uid) : x = y :=
  List.inj_on_of_nodup_map h.uids hx hy huid

/-- Whoever is signed in has an account. -/
theorem exists_current (h : a.Consistent) {u : String} (hcur : a.currentUser = some u) :
    ∃ account ∈ a.accounts, account.uid = u ∧ a.current? = some account := by
  obtain ⟨account, hmem, huid⟩ := List.mem_map.mp (h.current u hcur)
  cases hfind : a.current? with
  | none =>
    have hnone := List.find?_eq_none.mp hfind account hmem
    simp [hcur, huid] at hnone
  | some account' =>
    obtain ⟨hmem', hcur'⟩ := current?_eq_some hfind
    rw [hcur, Option.some.injEq] at hcur'
    have heq : account = account' := h.eq_of_uid hmem hmem' (huid.trans hcur')
    exact ⟨account, hmem, huid, by rw [heq]⟩

/-- Removing accounts keeps what is said of the others. -/
theorem filter (h : a.Consistent) (p : Account → Bool) :
    Consistent { accounts := a.accounts.filter p, currentUser := none } where
  uids := h.uids.sublist (List.filter_sublist.map _)
  logins := h.logins.sublist (List.filter_sublist.map _)
  one := fun account hmem => h.one account (List.mem_filter.mp hmem).1
  current := nofun

theorem signedIn (h : a.Consistent) {user : String} (hs : a.SignedIn login user a') :
    a'.Consistent := by
  cases hs with
  | existing hmem hlogin =>
    refine ⟨h.uids, h.logins, h.one, fun u hu => ?_⟩
    cases hu
    exact List.mem_map_of_mem hmem
  | created displayName hnone huid =>
    have hnew : [login] ∉ a.accounts.map Account.providerData := by
      intro hmem
      obtain ⟨account, hmem, hdata⟩ := List.mem_map.mp hmem
      exact hnone account hmem (by simp [hdata])
    refine ⟨?_, ?_, fun account hmem => ?_, fun u hu => ?_⟩
    · simpa [List.nodup_append] using ⟨h.uids, fun x hx heq => huid (List.mem_map.mpr ⟨x, hx, heq⟩)⟩
    · simpa [List.nodup_append] using
        ⟨h.logins, fun x hx heq => hnew (List.mem_map.mpr ⟨x, hx, heq⟩)⟩
    · rcases List.mem_append.mp hmem with hmem | hmem
      · exact h.one account hmem
      · obtain rfl := List.mem_singleton.mp hmem
        exact ⟨login, rfl⟩
    · cases hu
      simp

theorem updateDisplayName (h : a.Consistent) (displayName : String) :
    (a.updateDisplayName displayName).Consistent := by
  -- The names apart, the accounts are the same.
  have hmap : ∀ {β : Type} (f : Account → β),
      (∀ account, f { account with displayName := some displayName } = f account) →
      (a.updateDisplayName displayName).accounts.map f = a.accounts.map f := by
    intro β f hf
    simp only [Auth.updateDisplayName, List.map_map]
    refine List.map_congr_left fun account _ => ?_
    simp only [Function.comp_apply]
    split
    · exact hf account
    · rfl
  have huid := hmap Account.uid fun _ => rfl
  have hdata := hmap Account.providerData fun _ => rfl
  refine ⟨huid ▸ h.uids, hdata ▸ h.logins, fun account hmem => ?_, huid ▸ h.current⟩
  have hmem' : account.providerData ∈ a.accounts.map Account.providerData :=
    hdata ▸ List.mem_map_of_mem hmem
  obtain ⟨account', hmem'', heq⟩ := List.mem_map.mp hmem'
  exact heq ▸ h.one account' hmem''

/-- Every call to the service keeps them. -/
theorem serve (h : a.Consistent) (hdoc : service.Documented) (q : AuthReq) :
    (service q a).2.Consistent := by
  obtain ⟨r, a', hserve⟩ : ∃ r a', service q a = (r, a') := ⟨_, _, rfl⟩
  rw [hserve]
  cases r with
  | error e => exact hdoc.throws q a e a' hserve ▸ h
  | ok x =>
    cases q with
    | currentUser =>
      rw [hdoc.currentUser] at hserve
      exact (Prod.mk.inj hserve).2 ▸ h
    | googleSignIn => exact hdoc.googleSignIn a x a' hserve ▸ h
    | getAppleIDCredential => exact hdoc.getAppleIDCredential a x a' hserve ▸ h
    | signInWithProvider =>
      obtain ⟨login, hsigned⟩ := hdoc.signInWithProvider a x a' hserve
      exact h.signedIn hsigned
    | signInWithCredential credential =>
      obtain ⟨login, -, hsigned⟩ := hdoc.signInWithCredential a credential x a' hserve
      exact h.signedIn hsigned
    | updateDisplayName displayName =>
      exact hdoc.updateDisplayName a displayName a' hserve ▸ h.updateDisplayName displayName
    | reauthenticateWithCredential login =>
      exact (hdoc.reauthenticateWithCredential a login a' hserve).2 ▸ h
    | delete => exact hdoc.delete a a' hserve ▸ h.filter _
    | signOut => exact hdoc.signOut a a' hserve ▸ ⟨h.uids, h.logins, h.one, nofun⟩

end Consistent

end Auth

/-! ## What the app makes of the accounts -/

/-- The methods that the app calls. -/
inductive AccountCall where
  | signInWithGoogle
  | signInWithApple
  | deleteUser
  | signOut

def AccountCall.task : AccountCall → AuthProg Unit
  | .signInWithGoogle => AuthRepository.signInWithGoogle.void
  | .signInWithApple => AuthRepository.signInWithApple.void
  | .deleteUser => AuthRepository.deleteUser
  | .signOut => AuthRepository.signOut

/-- The accounts that there may be after the app has made calls, which may be
answered in any way that is documented. -/
inductive Auth.Reachable : Auth → Prop
  | empty : Reachable {}
  | call {service : AuthService} {a : Auth} (c : AccountCall) :
      service.Documented → Reachable a → Reachable (Prog.eval service c.task a).2

theorem Auth.Reachable.consistent (h : a.Reachable) : a.Consistent := by
  induction h with
  | empty => exact ⟨List.nodup_nil, List.nodup_nil, nofun, nofun⟩
  | @call service a c hdoc _ ih =>
    exact Prog.eval_keeps service (J := Auth.Consistent)
      (fun q _ hs => hs.serve hdoc q) c.task ih

/-! ## The reauthentication -/

/-- From `a` on no call throws that need not, and the answer to a sign-in carries
the credential. -/
structure AuthService.Answering (service : AuthService) (a : Auth) : Prop where
  googleSignIn : ∃ x, (service .googleSignIn a).1 = .ok x
  getAppleIDCredential : ∃ x, (service .getAppleIDCredential a).1 = .ok x
  signInWithCredential : ∀ login, ∃ user,
    (service (.signInWithCredential (some login)) a).1 =
      .ok { user := user, credential := some login }
  reauthenticateWithCredential : ∀ a₁ login, a₁.isCurrent login = true →
    (service (.reauthenticateWithCredential login) a₁).1 = .ok ()
  delete : ∀ a₁, a₁.current?.isSome → (service .delete a₁).1 = .ok ()

/-- The login that is picked in the dialog for the account, if there is a
dialog and it is not dismissed. -/
def Account.pickedLogin (account : Account) (service : AuthService) (a : Auth) : Option Login :=
  match account.providerData with
  | [] => none
  | first :: _ =>
    if first.providerId = "google.com" then (service .googleSignIn a).1.toOption.join
    else if first.providerId = "apple.com" then
      (service .getAppleIDCredential a).1.toOption.bind AppleIDCredential.identityToken
    else none

/-- The accounts without that of a login, and nobody signed in. -/
def Auth.without (a : Auth) (login : Login) : Auth where
  accounts := a.accounts.filter fun account => login ∉ account.providerData
  currentUser := none

/-- Deleting the current account deletes that of its login. -/
theorem Auth.Consistent.delete_eq (h : a.Consistent) {account : Account}
    (hcur : a.current? = some account) (hlogin : login ∈ account.providerData) :
    a.delete = a.without login := by
  obtain ⟨hmem, huser⟩ := current?_eq_some hcur
  have hsame : ∀ x ∈ a.accounts, some x.uid = a.currentUser ↔ login ∈ x.providerData := by
    intro x hx
    rw [huser, Option.some.injEq]
    constructor
    · intro huid
      rw [h.eq_of_uid hx hmem huid]
      exact hlogin
    · intro hx'
      rw [h.eq_of_login hx hmem hx' hlogin]
  have hfilter : a.accounts.filter (fun x => some x.uid ≠ a.currentUser) =
      a.accounts.filter fun x => login ∉ x.providerData :=
    List.filter_congr fun x hx => by simp only [ne_eq, hsame x hx]
  rw [delete, without, hfilter]

/-- Signing in makes the account of the login the current one. -/
theorem Auth.Consistent.signedIn_current (h : a.Consistent) {user : String}
    (hs : a.SignedIn login user a') :
    a'.current?.isSome ∧ a'.isCurrent login = true ∧ a'.delete = a.without login := by
  have h' : a'.Consistent := h.signedIn hs
  -- The account that is current then has the login.
  have hcurrent : ∀ account ∈ a'.accounts, login ∈ account.providerData →
      a'.currentUser = some account.uid → a'.without login = a.without login →
      a'.current?.isSome ∧ a'.isCurrent login = true ∧ a'.delete = a.without login := by
    intro account hmem hlogin huser hwithout
    obtain ⟨account', hmem', huid, hcur⟩ := h'.exists_current huser
    obtain rfl : account' = account := h'.eq_of_uid hmem' hmem huid
    refine ⟨by simp [hcur], by simp [isCurrent, hcur, hlogin], ?_⟩
    rw [h'.delete_eq hcur hlogin, hwithout]
  cases hs with
  | @existing account hmem hlogin => exact hcurrent account hmem hlogin rfl rfl
  | created displayName hnone huid =>
    exact hcurrent { uid := user, providerData := [login], displayName := displayName }
      (by simp) (by simp) rfl (by simp [without])

section Evaluation

open AuthRepository

/-- A call that leaves the accounts, and is answered. -/
theorem AuthService.eq_of_fst {q : AuthReq} {x : q.Ans} (h : (service q a).1 = .ok x)
    (hsame : ∀ a', service q a = (.ok x, a') → a' = a) : service q a = (.ok x, a) := by
  have heq : service q a = (.ok x, (service q a).2) := Prod.ext h rfl
  rw [heq, hsame _ heq]

theorem eval_catching_ok {α : Type} {caught : AuthErr} {t : AuthProg α} {x : α}
    (h : Prog.eval service t a = (.ok x, a')) :
    Prog.eval service (catching caught t) a = (.ok x, a') := by
  rw [catching, Prog.eval_tryCatch, h]

theorem eval_catching_error {α : Type} (caught : AuthErr) {e : AuthErr} {t : AuthProg α}
    (h : Prog.eval service t a = (.error e, a')) :
    ∃ e', Prog.eval service (catching caught t) a = (.error e', a') := by
  rw [catching, Prog.eval_tryCatch, h]
  by_cases he : e = caught
  · exact ⟨.exception, by simp [he]⟩
  · exact ⟨e, by simp [he]⟩

/-- A dialog that is not dismissed signs in the login. -/
theorem eval_reauthenticate_some (h : a.Consistent) (hdoc : service.Documented)
    (hr : service.Answering a) {account : Account} {first : Login} {rest : List Login}
    (hdata : account.providerData = first :: rest)
    (hpicked : account.pickedLogin service a = some login) :
    ∃ user a₁, Prog.eval service (reauthenticate first.providerId) a =
        (.ok (some { user := user, credential := some login }), a₁) ∧
      a₁.current?.isSome ∧ a₁.isCurrent login = true ∧ a₁.delete = a.without login := by
  obtain ⟨user, huser⟩ := hr.signInWithCredential login
  obtain ⟨a₁, hserve⟩ : ∃ a₁, service (.signInWithCredential (some login)) a =
      (.ok { user := user, credential := some login }, a₁) := ⟨_, Prod.ext huser rfl⟩
  obtain ⟨login', heq, hsigned⟩ := hdoc.signInWithCredential _ _ _ _ hserve
  obtain rfl : login = login' := by simpa using heq
  refine ⟨user, a₁, ?_, h.signedIn_current hsigned⟩
  unfold Account.pickedLogin at hpicked
  rw [hdata] at hpicked
  dsimp only at hpicked
  unfold reauthenticate
  split at hpicked
  · next hgoogle =>
    obtain ⟨x, hx⟩ := hr.googleSignIn
    obtain rfl : x = some login := by simpa [hx, Except.toOption] using hpicked
    have hdialog := AuthService.eq_of_fst hx (hdoc.googleSignIn _ _)
    have hreauth : Prog.eval service reauthenticateWithGoogle a =
        (.ok { user := user, credential := some login }, a₁) := by
      refine eval_catching_ok ?_
      rw [Prog.bind_eq, Prog.eval_bind, Prog.eval_await, hdialog]
      simpa using hserve
    rw [if_pos hgoogle, Prog.bind_eq, Prog.eval_bind, hreauth]
    rfl
  · next hgoogle =>
    split at hpicked
    · next happle =>
      obtain ⟨x, hx⟩ := hr.getAppleIDCredential
      have htoken : x.identityToken = some login := by simpa [hx, Except.toOption] using hpicked
      have hdialog := AuthService.eq_of_fst hx (hdoc.getAppleIDCredential _ _)
      have hreauth : Prog.eval service reauthenticateWithApple a =
          (.ok { user := user, credential := some login }, a₁) := by
        refine eval_catching_ok ?_
        rw [Prog.bind_eq, Prog.eval_bind, Prog.eval_await, hdialog]
        simpa [bang, htoken] using hserve
      rw [if_neg hgoogle, if_pos happle, Prog.bind_eq, Prog.eval_bind, hreauth]
      rfl
    · cases hpicked

/-- Without a dialog, or when it is dismissed, nothing changes. -/
theorem eval_reauthenticate_none (hdoc : service.Documented) (hr : service.Answering a)
    {account : Account} {first : Login} {rest : List Login}
    (hdata : account.providerData = first :: rest)
    (hpicked : account.pickedLogin service a = none) :
    Prog.eval service (reauthenticate first.providerId) a = (.ok none, a) ∨
      ∃ e, Prog.eval service (reauthenticate first.providerId) a = (.error e, a) := by
  unfold Account.pickedLogin at hpicked
  rw [hdata] at hpicked
  dsimp only at hpicked
  unfold reauthenticate
  split at hpicked
  · next hgoogle =>
    right
    obtain ⟨x, hx⟩ := hr.googleSignIn
    obtain rfl : x = none := by simpa [hx, Except.toOption] using hpicked
    have hdialog := AuthService.eq_of_fst hx (hdoc.googleSignIn _ _)
    obtain ⟨e, hrefused⟩ := hdoc.refuses a
    have hinner : Prog.eval service (Prog.bind (Prog.await AuthReq.googleSignIn)
        fun credential => Prog.await (AuthReq.signInWithCredential credential)) a =
          (.error e, a) := by
      rw [Prog.eval_bind, Prog.eval_await, hdialog]
      simpa using hrefused
    obtain ⟨e', he'⟩ := eval_catching_error .firebaseAuthException hinner
    refine ⟨e', ?_⟩
    rw [if_pos hgoogle, Prog.bind_eq, Prog.eval_bind]
    rw [show Prog.eval service reauthenticateWithGoogle a = (.error e', a) from he']
  · next hgoogle =>
    split at hpicked
    · next happle =>
      right
      obtain ⟨x, hx⟩ := hr.getAppleIDCredential
      have htoken : x.identityToken = none := by simpa [hx, Except.toOption] using hpicked
      have hdialog := AuthService.eq_of_fst hx (hdoc.getAppleIDCredential _ _)
      have hinner : Prog.eval service (Prog.bind (Prog.await AuthReq.getAppleIDCredential)
          fun c => Prog.bind (bang c.identityToken) fun credential =>
            Prog.await (AuthReq.signInWithCredential (some credential))) a =
            (.error .typeError, a) := by
        rw [Prog.eval_bind, Prog.eval_await, hdialog]
        simp [bang, htoken]
      obtain ⟨e, he⟩ := eval_catching_error .signInWithAppleException hinner
      refine ⟨e, ?_⟩
      rw [if_neg hgoogle, if_pos happle, Prog.bind_eq, Prog.eval_bind]
      rw [show Prog.eval service reauthenticateWithApple a = (.error e, a) from he]
    · next happle =>
      left
      rw [if_neg hgoogle, if_neg happle]
      rfl

/-- What is deleted is the account of the login that was picked. -/
theorem eval_deleteUser_some (h : a.Consistent) (hdoc : service.Documented)
    (hr : service.Answering a) {account : Account} (hcur : a.current? = some account)
    (hpicked : account.pickedLogin service a = some login) :
    Prog.eval service deleteUser a = (.ok (), a.without login) := by
  obtain ⟨first, hdata⟩ := h.one account (Auth.current?_eq_some hcur).1
  obtain ⟨user, a₁, hreauth, hsome, hlogin, hdelete⟩ :=
    eval_reauthenticate_some h hdoc hr hdata hpicked
  obtain ⟨account₁, hcur₁⟩ := Option.isSome_iff_exists.mp hsome
  have hagain : service (.reauthenticateWithCredential login) a₁ = (.ok (), a₁) :=
    AuthService.eq_of_fst (hr.reauthenticateWithCredential a₁ login hlogin) fun _ heq =>
      (hdoc.reauthenticateWithCredential _ _ _ heq).2
  have hgone : service .delete a₁ = (.ok (), a.without login) := by
    have heq : service .delete a₁ = (.ok (), (service .delete a₁).2) :=
      Prod.ext (hr.delete a₁ hsome) rfl
    rw [heq, hdoc.delete a₁ _ heq, hdelete]
  refine eval_catching_ok ?_
  simp [Prog.eval_bind, hdoc.currentUser, hcur, bang, hdata, hreauth, hcur₁, hagain, hgone]

/-- Without a login that is picked, nothing is deleted. -/
theorem eval_deleteUser_none (h : a.Consistent) (hdoc : service.Documented)
    (hr : service.Answering a) {account : Account} (hcur : a.current? = some account)
    (hpicked : account.pickedLogin service a = none) :
    ∃ e, Prog.eval service deleteUser a = (.error e, a) := by
  obtain ⟨first, hdata⟩ := h.one account (Auth.current?_eq_some hcur).1
  rcases eval_reauthenticate_none hdoc hr hdata hpicked with hreauth | ⟨e, hreauth⟩
  · refine eval_catching_error (e := .thrownType) .firebaseAuthException ?_
    simp [Prog.eval_bind, hdoc.currentUser, hcur, bang, hdata, hreauth]
  · refine eval_catching_error (e := e) .firebaseAuthException ?_
    simp [Prog.eval_bind, hdoc.currentUser, hcur, bang, hdata, hreauth]

end Evaluation

/-! ## The event -/

/-- What of the error `SettingsBloc` sees. A class that was thrown is no
exception that anybody catches. -/
def AuthErr.toErr : AuthErr → Err
  | .stateError => .stateError
  | .typeError => .typeError
  | _ => .exception

/-- `DeleteAccount`, handled while nothing else happens: what it returns, the
accounts and the database. -/
def handleDeleteAccount (service : AuthService) (firebaseUser : AuthUser)
    (state : SettingsState) (user : User) (a : Auth) (st : AppState) :
    Except Err Unit × Auth × AppState :=
  let deleted := Prog.eval service AuthRepository.deleteUser a
  let handled := Prog.eval (serve {}) (Handler.effect
    (RepositoryCall.task firebaseUser (deleted.1.mapError AuthErr.toErr) (.ok ()))
    (SettingsBloc.onDeleteAccount user) state) st
  (handled.1, deleted.2, handled.2)

section Event

variable (u : String) (a a' : Auth) (st st' : AppState)

/-- The account and the document of `u` are gone, and nothing else. -/
structure DeletesAccount : Prop where
  accounts : a'.accounts = a.accounts.filter fun account => account.uid ≠ u
  signedOut : a'.currentUser = none
  document : st'.store = st.store.del (.users u)

/-- The document of `u` is gone, and the account is not. -/
structure OrphansAccount : Prop where
  account : u ∈ a'.accounts.map Account.uid
  signedOut : a'.currentUser = none
  document : st'.store = st.store.del (.users u)

end Event

section Deletion

variable {u : String} {st : AppState} {user : User}

theorem handleDeleteAccount_some (h : a.Consistent) (hdoc : service.Documented)
    (hr : service.Answering a) {account : Account} (hcur : a.current? = some account)
    (hid : user.id = some u) (hpicked : account.pickedLogin service a = some login)
    (firebaseUser : AuthUser) (state : SettingsState) :
    ∃ st', handleDeleteAccount service firebaseUser state user a st =
        (.ok (), a.without login, st') ∧ st'.store = st.store.del (.users u) := by
  obtain ⟨st', hrun, hstore⟩ := runDeleteAccount_store firebaseUser state user hid st
  refine ⟨st', ?_, hstore⟩
  rw [runDeleteAccount] at hrun
  simp only [handleDeleteAccount, eval_deleteUser_some h hdoc hr hcur hpicked, Except.mapError,
    hrun]

theorem handleDeleteAccount_none (h : a.Consistent) (hdoc : service.Documented)
    (hr : service.Answering a) {account : Account} (hcur : a.current? = some account)
    (hpicked : account.pickedLogin service a = none) (firebaseUser : AuthUser)
    (state : SettingsState) :
    ∃ e, handleDeleteAccount service firebaseUser state user a st = (.error e, a, st) := by
  obtain ⟨e, he⟩ := eval_deleteUser_none h hdoc hr hcur hpicked
  refine ⟨e.toErr, ?_⟩
  simp only [handleDeleteAccount, he, Except.mapError, SettingsBloc.effect_onDeleteAccount,
    SettingsBloc.deleteAccount]
  rfl

/-- An account goes with a login just when it is its own. -/
theorem Auth.Consistent.uid_mem_without (h : a.Consistent) {account : Account}
    (hmem : account ∈ a.accounts) :
    account.uid ∈ (a.without login).accounts.map Account.uid ↔
      login ∉ account.providerData := by
  constructor
  · intro huid
    obtain ⟨account', hmem', heq⟩ := List.mem_map.mp huid
    obtain ⟨hmem'', hlogin⟩ := List.mem_filter.mp hmem'
    obtain rfl : account' = account := h.eq_of_uid hmem'' hmem heq
    simpa using hlogin
  · intro hlogin
    exact List.mem_map_of_mem (List.mem_filter.mpr ⟨hmem, by simpa using hlogin⟩)

/-- The account of a login is the only one to go with it. -/
theorem Auth.Consistent.filter_login (h : a.Consistent) {account : Account}
    (hmem : account ∈ a.accounts) (hlogin : login ∈ account.providerData) :
    (a.without login).accounts = a.accounts.filter fun x => x.uid ≠ account.uid := by
  refine List.filter_congr fun x hx => ?_
  have hsame : login ∈ x.providerData ↔ x.uid = account.uid := by
    constructor
    · intro hx'
      rw [h.eq_of_login hx hmem hx' hlogin]
    · intro huid
      rw [h.eq_of_uid hx hmem huid]
      exact hlogin
  simp only [ne_eq, hsame]

/-- Handling `DeleteAccount` for the account that is signed in, with no call
failing: it deletes the account and its document just when one of the
account's own logins is picked in the dialog; it deletes the document and
keeps the account just when another login is picked, whose account goes
instead; and it does nothing just when no login is picked. -/
theorem deleteAccount_deletes_iff (hdoc : service.Documented) (h : a.Reachable)
    (hr : service.Answering a) (hcur : a.currentUser = some u) (hid : user.id = some u)
    (firebaseUser : AuthUser) (state : SettingsState) (st : AppState) :
    ∃ account ∈ a.accounts, account.uid = u ∧
      let (_, a', st') := handleDeleteAccount service firebaseUser state user a st
      let picked := account.pickedLogin service a
      (DeletesAccount u a a' st st' ↔
        ∃ login, picked = some login ∧ login ∈ account.providerData) ∧
      (OrphansAccount u a' st st' ↔
        ∃ login, picked = some login ∧ login ∉ account.providerData) ∧
      (∀ login, picked = some login → a' = a.without login) ∧
      ((a', st') = (a, st) ↔ picked = none) := by
  obtain ⟨account, hmem, huid, hfind⟩ := h.consistent.exists_current hcur
  refine ⟨account, hmem, huid, ?_⟩
  subst huid
  cases hpicked : account.pickedLogin service a with
  | none =>
    have hnone : ∃ e, handleDeleteAccount service firebaseUser state user a st =
        (.error e, a, st) :=
      handleDeleteAccount_none h.consistent hdoc hr hfind hpicked firebaseUser state
    obtain ⟨e, he⟩ := hnone
    rw [he]
    refine ⟨?_, ?_, nofun, by simp⟩
    · simpa using fun h : DeletesAccount _ a a st st => absurd h.signedOut (by simp [hcur])
    · simpa using fun h : OrphansAccount _ a st st => absurd h.signedOut (by simp [hcur])
  | some login =>
    have hsome : ∃ st', handleDeleteAccount service firebaseUser state user a st =
        (.ok (), a.without login, st') ∧ st'.store = st.store.del (.users account.uid) :=
      handleDeleteAccount_some h.consistent hdoc hr hfind hid hpicked firebaseUser state
    obtain ⟨st', heq, hstore⟩ := hsome
    rw [heq]
    have hkept : account.uid ∈ (a.without login).accounts.map Account.uid ↔
        login ∉ account.providerData := h.consistent.uid_mem_without hmem
    have hpick : ∀ p : Login → Prop, (∃ l, some login = some l ∧ p l) ↔ p login := by
      simp
    refine ⟨?_, ?_, ?_, ?_⟩
    · rw [hpick]
      constructor
      · intro hdel
        by_contra hlogin
        have huid := hkept.mpr hlogin
        rw [hdel.accounts] at huid
        obtain ⟨x, ⟨-, hne⟩, hx⟩ := by simpa using huid
        exact hne hx
      · exact fun hlogin => ⟨h.consistent.filter_login hmem hlogin, rfl, hstore⟩
    · rw [hpick, ← hkept]
      exact ⟨OrphansAccount.account, fun huid => ⟨huid, rfl, hstore⟩⟩
    · rintro _ ⟨⟩
      rfl
    · refine iff_of_false (fun heq => ?_) (by simp)
      have hout : (a.without login).currentUser = a.currentUser := by
        rw [(Prod.mk.inj heq).1]
      rw [hcur] at hout
      cases hout

/-! ## Ada picks another login -/

/-- No call throws; in every dialog `sub` is picked. -/
def picking (sub uid : String) : AuthService :=
  authServe fun _ => { picked := some sub, uid := uid }

theorem answering_picking {sub uid : String} (hfresh : uid ∉ a.accounts.map Account.uid) :
    (picking sub uid).Answering a where
  googleSignIn := ⟨_, rfl⟩
  getAppleIDCredential := ⟨_, rfl⟩
  signInWithCredential login := by
    rcases a.signIn_cases login { picked := some sub, uid := uid } with
      ⟨huid, -⟩ | ⟨user, a₁, heq, -⟩
    · exact absurd huid hfresh
    · exact ⟨user, congrArg Prod.fst heq⟩
  reauthenticateWithCredential a₁ login hcurrent := by
    have heq : picking sub uid (.reauthenticateWithCredential login) a₁ =
        if a₁.isCurrent login then (.ok (), a₁) else (.error .firebaseAuthException, a₁) := rfl
    rw [heq, if_pos hcurrent]
  delete _ _ := rfl

/-- Ada has signed up with Google. -/
def adaAuth : Auth :=
  (Prog.eval (picking "ada" "u1") AccountCall.signInWithGoogle.task {}).2

theorem adaAuth_reachable : adaAuth.Reachable :=
  .call .signInWithGoogle (documented_authServe _) .empty

/-- She deletes her account, and picks `bob` when she is to sign in once more:
her account stays, and her document goes. -/
theorem deleteAccount_orphans_ada : ∃ st', OrphansAccount "u1"
    (handleDeleteAccount (picking "bob" "u2") { uid := "u1" } .initial
      (signUpUser "u1" "Ada" none) adaAuth { store := ∅ }).2.1 { store := ∅ } st' := by
  have hid : (signUpUser "u1" "Ada" none).id = some "u1" := rfl
  obtain ⟨account, hmem, -, -, horphans, -, -⟩ := deleteAccount_deletes_iff
    (documented_authServe _ : (picking "bob" "u2").Documented) adaAuth_reachable
    (answering_picking (by decide)) (by decide) hid { uid := "u1" } .initial { store := ∅ }
  refine ⟨_, horphans.mpr ?_⟩
  obtain rfl : account = { uid := "u1", providerData := [Login.google "ada"] } := by
    have heq : adaAuth.accounts = [{ uid := "u1", providerData := [Login.google "ada"] }] := by
      decide
    rwa [heq, List.mem_singleton] at hmem
  exact ⟨Login.google "bob", by decide, by decide⟩

end Deletion

end GottaGo
