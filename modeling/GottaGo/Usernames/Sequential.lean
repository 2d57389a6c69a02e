/-
GottaGo.Usernames.Sequential — the directory of names when one operation
ends before the next begins.

Five operations write users and names: sign-up, the name chosen in
onboarding, a change of user name, a change of name, and the deletion of
an account. The last two leave registrations that nobody uses, and no
operation removes those. What is kept is `Directory`: every name a user
has is registered to the user. `Directory.step` has one case for each
operation.
-/
import GottaGo.Bloc.Handlers
import GottaGo.Usernames.Directory

namespace GottaGo

open GottaGo.Async GottaGo.Firestore DatabaseRepository

/-! ## The handlers -/

/-- `OnboardingBloc.updateUser` registers a non-empty name and then writes
the user. -/
theorem eval_onboarding_updateUser {st st' : AppState} {user : User} {uid n : String}
    (hid : user.id = some uid) (hname : user.userName = some n)
    (h : Prog.eval (serve {}) (OnboardingBloc.updateUser user) st = (.ok (), st')) :
    (updateWrite uid user).apply
      (if n = "" then st.store
        else st.store.put (.usernames n) (registration uid)) = some st'.store := by
  unfold OnboardingBloc.updateUser at h
  by_cases hn : n = ""
  · simp only [hname, hn, ne_eq, not_true_eq_false, if_false, Prog.bind_eq] at h
    obtain ⟨s', hw, rfl⟩ := (eval_updateUser st hid).mp h
    rw [if_pos hn]
    exact hw
  · simp only [hname, hid, ne_eq, Option.some.injEq, hn, not_false_eq_true, if_true,
      Fire.bang_some, Prog.bind_eq, Prog.bind, Prog.eval_bind,
      eval_registerUsername] at h
    obtain ⟨s', hw, rfl⟩ := (eval_updateUser _ hid).mp h
    rw [if_neg hn]
    exact hw

/-- `SettingsBloc.updateUsername` moves the registration and then writes the
user. -/
theorem eval_settings_updateUsername {st st' : AppState} {user : User}
    {uid m n : String} (hid : user.id = some uid) (hname : user.userName = some m)
    (h : Prog.eval (serve {}) (SettingsBloc.updateUsername user n) st = (.ok (), st')) :
    (updateWrite uid (user.copyWith { userName := some n })).apply
      ((st.store.del (.usernames m)).put (.usernames n) (registration uid)) =
        some st'.store := by
  unfold SettingsBloc.updateUsername at h
  have hid' : (user.copyWith { userName := some n }).id = some uid := hid
  simp only [hname, hid, Fire.bang_some, Prog.bind_eq, Prog.bind, Prog.eval_bind,
    eval_deregisterUsername, eval_registerUsername] at h
  obtain ⟨s', hw, rfl⟩ := (eval_updateUser _ hid').mp h
  exact hw

/-- A flow that begins with the availability check does nothing when the
name is taken. -/
theorem eval_checked {st st' : AppState} {n : String} {t : App Unit}
    (h : Prog.eval (serve {}) ((checkUsernameAvailability n).bind fun available =>
      if available = true then t else .ret ()) st = (.ok (), st')) :
    st' = st ∨ st.store.get (.usernames n) = none ∧
      Prog.eval (serve {}) t st = (.ok (), st') := by
  rw [Prog.eval_bind, eval_checkUsernameAvailability] at h
  by_cases hn : st.store.get (.usernames n) = none
  · simp only [hn, Option.isNone_none, if_true] at h
    exact .inr ⟨hn, h⟩
  · have hsome : (st.store.get (.usernames n)).isNone = false := by
      rw [Option.isNone_eq_false_iff, Option.isSome_iff_ne_none]
      exact hn
    simp only [hsome, Bool.false_eq_true, if_false, Prog.eval_ret, Prod.mk.injEq,
      true_and] at h
    exact .inl h.symm

/-! ## The operations -/

section Operations

variable {st st' : AppState} {user : User} {uid n : String}

theorem eval_startOnboarding (hid : user.id = some uid)
    (h : Prog.eval (serve {}) (OnboardingBloc.startOnboarding user) st = (.ok (), st')) :
    (createWrite uid user).apply st.store = some st'.store := by
  unfold OnboardingBloc.startOnboarding at h
  rw [eval_createUser st hid] at h
  cases h
  exact Write.apply_set st.store _ _

/-- A name that is free is registered, unless it is empty, and the user is
written with it. -/
theorem eval_setUsername (hid : user.id = some uid)
    (h : Prog.eval (serve {}) (setUsername user n) st = (.ok (), st')) :
    st' = st ∨ st.store.get (.usernames n) = none ∧
      (updateWrite uid (user.copyWith { userName := some n })).apply
        (if n = "" then st.store
          else st.store.put (.usernames n) (registration uid)) = some st'.store := by
  have hid' : (user.copyWith { userName := some n }).id = some uid := hid
  unfold setUsername at h
  exact (eval_checked h).imp_right fun hfree =>
    ⟨hfree.1, eval_onboarding_updateUser hid' rfl hfree.2⟩

/-- A name that is free takes the place of the old one, and the user is
written with it. -/
theorem eval_changeUsername {m : String} (hid : user.id = some uid)
    (hname : user.userName = some m)
    (h : Prog.eval (serve {}) (changeUsername user n) st = (.ok (), st')) :
    st' = st ∨ st.store.get (.usernames n) = none ∧
      (updateWrite uid (user.copyWith { userName := some n })).apply
        ((st.store.del (.usernames m)).put (.usernames n) (registration uid)) =
          some st'.store := by
  unfold changeUsername at h
  exact (eval_checked h).imp_right fun hfree =>
    ⟨hfree.1, eval_settings_updateUsername hid hname hfree.2⟩

theorem eval_updateName (hid : user.id = some uid)
    (h : Prog.eval (serve {}) (SettingsBloc.updateName user) st = (.ok (), st')) :
    (updateWrite uid user).apply st.store = some st'.store := by
  unfold SettingsBloc.updateName at h
  obtain ⟨s', hw, rfl⟩ := (eval_updateUser st hid).mp h
  exact hw

/-- Only the document of the user goes with the account. -/
theorem eval_deleteAccount {accountDeleted : Except Err Unit} (hid : user.id = some uid)
    (h : Prog.eval (serve {}) (SettingsBloc.deleteAccount accountDeleted user) st =
      (.ok (), st')) :
    (Write.delete (.users uid)).apply st.store = some st'.store := by
  unfold SettingsBloc.deleteAccount at h
  cases accountDeleted with
  | error e => cases h
  | ok _ =>
    have hdelete : Prog.eval (serve {}) (deleteUserData user) st = (.ok (), st') := h
    rw [eval_deleteUserData st hid] at hdelete
    cases hdelete
    exact Write.apply_delete st.store _

end Operations

/-! ## Runs -/

/-- One operation, run to its end with no failure. -/
inductive DirectoryStep : AppState → AppState → Prop
  | startOnboarding {st st' : AppState} (uid name : String) (email : Option String) :
      Prog.eval (serve {}) (OnboardingBloc.startOnboarding (signUpUser uid name email)) st
        = (.ok (), st') → DirectoryStep st st'
  | setUsername {st st' : AppState} {user : User} {uid : String} (userName : String) :
      user.id = some uid →
      Prog.eval (serve {}) (setUsername user userName) st = (.ok (), st') →
      DirectoryStep st st'
  | updateUsername {st st' : AppState} {user : User} {uid oldName : String}
      (userName : String) :
      User.fromSnapshot uid (st.store.get (.users uid)) = .ok user →
      user.userName = some oldName → oldName ≠ "" →
      Prog.eval (serve {}) (changeUsername user userName) st = (.ok (), st') →
      DirectoryStep st st'
  | updateName {st st' : AppState} {user : User} {uid : String} (name : String) :
      User.fromSnapshot uid (st.store.get (.users uid)) = .ok user →
      Prog.eval (serve {}) (SettingsBloc.updateName (user.copyWith { name := some name })) st
        = (.ok (), st') → DirectoryStep st st'
  | deleteAccount {st st' : AppState} {user : User} {uid : String}
      (accountDeleted : Except Err Unit) :
      user.id = some uid →
      Prog.eval (serve {}) (SettingsBloc.deleteAccount accountDeleted user) st
        = (.ok (), st') → DirectoryStep st st'

/-- A user that was read has the name it was read with. -/
theorem hasName_of_fromSnapshot {s : Store Path} {uid n : String} {user : User}
    (h : User.fromSnapshot uid (s.get (.users uid)) = .ok user)
    (hn : user.userName = some n) (hne : n ≠ "") : HasName s uid n := by
  obtain ⟨-, d, ids, hd, -, -, hname⟩ := User.fromSnapshot_ok h
  refine ⟨?_, hne⟩
  rw [Store.field_eq hd, hname, hn, Value.ofString?]

/-- What follows a registration: the user's document is written with the
name that has just been registered. -/
theorem SoundBut.claim {busy : String → Prop} {s s' : Store Path} {user : User}
    {uid n : String} (h : SoundBut busy s) (hbusy : ∀ v, busy v → v = uid)
    (hfree : s.get (.usernames n) = none)
    (hw : (updateWrite uid (user.copyWith { userName := some n })).apply
      (s.put (.usernames n) (registration uid)) = some s') : Directory s' := by
  have hreg : SoundBut busy (s.put (.usernames n) (registration uid)) :=
    h.register (.inl hfree)
  have hdone := hreg.userWrite hw rfl fun k hk => by
    have hname := (hasName_updateWrite hw k).mp hk
    have hkn : k = n := by
      simpa [User.copyWith, eq_comm] using hname.1
    rw [registered_put, if_pos hkn]
  refine soundBut_none.mp (hdone.mono fun v hv => ?_)
  exact hv.2 (hbusy v hv.1)

theorem Directory.step {st st' : AppState} (h : Directory st.store)
    (hs : DirectoryStep st st') : Directory st'.store := by
  have hsound : SoundBut (fun _ => False) st.store := soundBut_none.mpr h
  have hdone : ∀ {uid : String} {s' : Store Path},
      SoundBut (fun v => False ∧ v ≠ uid) s' → Directory s' :=
    fun hs' => soundBut_none.mp (hs'.mono fun _ hv => hv.1)
  cases hs with
  | startOnboarding uid name email heval =>
    have hid : (signUpUser uid name email).id = some uid := rfl
    have hw := eval_startOnboarding hid heval
    refine hdone (hsound.userWrite hw rfl fun n hn => ?_)
    -- the page builds the user with an empty name
    have hname := (hasName_createWrite hw n).mp hn
    exact absurd (Option.some.inj hname.1).symm hname.2
  | @setUsername user uid n hid heval =>
    rcases eval_setUsername hid heval with rfl | ⟨hfree, hw⟩
    · exact h
    · by_cases hn : n = ""
      · rw [if_pos hn] at hw
        refine hdone (hsound.userWrite hw rfl fun k hk => ?_)
        have hname := (hasName_updateWrite hw k).mp hk
        have hkn : k = n := by
          simpa [User.copyWith, eq_comm] using hname.1
        exact absurd (hkn.trans hn) hname.2
      · rw [if_neg hn] at hw
        exact hsound.claim (fun _ hv => hv.elim) hfree hw
  | @updateUsername user uid m n hread hm hne heval =>
    have hid : user.id = some uid := (User.fromSnapshot_ok hread).1
    have hown : Registered st.store m uid := h uid m (hasName_of_fromSnapshot hread hm hne)
    rcases eval_changeUsername hid hm heval with rfl | ⟨hfree, hw⟩
    · exact h
    · have hbut := hsound.deregister (.inr hown)
      have hfree' : (st.store.del (.usernames m)).get (.usernames n) = none := by
        rw [Store.get_del]
        split
        · rfl
        · exact hfree
      exact hbut.claim (fun v hv => hv.resolve_left id) hfree' hw
  | @updateName user uid name hread heval =>
    have hid : (user.copyWith { name := some name }).id = some uid :=
      (User.fromSnapshot_ok hread).1
    have hw := eval_updateName hid heval
    refine hdone (hsound.userWrite hw rfl fun n hn => ?_)
    have hname := (hasName_updateWrite hw n).mp hn
    exact h uid n (hasName_of_fromSnapshot hread hname.1 hname.2)
  | @deleteAccount user uid accountDeleted hid heval =>
    have hw := eval_deleteAccount hid heval
    have hstore : st.store.del (.users uid) = st'.store := Option.some.inj hw
    refine hdone (hsound.userWrite hw rfl fun n hn => ?_)
    rw [← hstore] at hn
    exact absurd hn (not_hasName (st.store.get_del_self _))

/-- From a database with no users, in every state that a sequence of
operations reaches, every non-empty user name is registered to its user,
the directory finds the user by it, and no other user has it. -/
theorem directory_sound {s : Store Path} {st : AppState}
    (hempty : ∀ u, s.get (.users u) = none)
    (hrun : Relation.ReflTransGen DirectoryStep { store := s } st) :
    ∀ u n, HasName st.store u n → Registered st.store n u ∧
      Prog.eval (serve {}) (checkUsernameExists n) st = (.ok (some u), st) ∧
      ∀ v, HasName st.store v n → v = u := by
  have hdir : Directory st.store := by
    induction hrun with
    | refl =>
      intro u n hn
      exact absurd hn (not_hasName (hempty u))
    | tail _ hs ih => exact ih.step hs
  intro u n hn
  have hreg := hdir u n hn
  exact ⟨hreg, eval_checkUsernameExists st n hreg, fun v hv => hdir.unique hv hn⟩

/-- `ada` signs up, chooses the name `ada_l`, and changes it to `lovelace`. -/
theorem directory_sound_rename : ∃ st : AppState, HasName st.store "ada" "lovelace" ∧
    Prog.eval (serve {}) (checkUsernameExists "lovelace") st = (.ok (some "ada"), st) := by
  let user := signUpUser "ada" "Ada" none
  let st₁ := (Prog.eval (serve {}) (OnboardingBloc.startOnboarding user)
    ({ store := ∅ } : AppState)).2
  let st₂ := (Prog.eval (serve {}) (setUsername user "ada_l") st₁).2
  let renamed := user.copyWith { userName := some "ada_l" }
  let st₃ := (Prog.eval (serve {}) (changeUsername renamed "lovelace") st₂).2
  have h₁ : DirectoryStep { store := ∅ } st₁ := .startOnboarding "ada" "Ada" none rfl
  have hid : user.id = some "ada" := rfl
  have h₂ : DirectoryStep st₁ st₂ := .setUsername "ada_l" hid rfl
  have hread : User.fromSnapshot "ada" (st₂.store.get (.users "ada")) = .ok renamed := rfl
  have h₃ : DirectoryStep st₂ st₃ :=
    .updateUsername "lovelace" hread (show renamed.userName = some "ada_l" from rfl)
      (by decide) rfl
  have hname : HasName st₃.store "ada" "lovelace" := by decide
  have hrun := ((Relation.ReflTransGen.single h₁).tail h₂).tail h₃
  exact ⟨st₃, hname, (directory_sound Store.get_empty hrun "ada" "lovelace" hname).2.1⟩

end GottaGo
