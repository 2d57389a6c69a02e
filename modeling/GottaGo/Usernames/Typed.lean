/-
GottaGo.Usernames.Typed — names as they are typed (`globals.dart`,
`profile_info.dart`, `settings.dart`, `invite_dialog.dart`).

The fields of the sign-up and of the change of a name take out spaces and put
everything in lower case (`usernameField`), and what they hold is what is
registered. The field of `InviteDialog` has no formatters: the name that is
looked up is the text itself. So a user is found by the text only when it is
what the form makes of it (`username_finds_iff`).

The steps of a run are those of `Usernames/Sequential.lean`, with names that
come from the forms, and anything else that leaves names and registrations as
they are. The dialog of the home page sets a name that it does not register;
it is neither of the two forms.
-/
import GottaGo.Requests.Reported
import GottaGo.Text.Unicode
import GottaGo.Usernames.Sequential

namespace GottaGo

open GottaGo.Async GottaGo.Firestore GottaGo.Utf16 DatabaseRepository

/-! ## The field -/

/-- `FilteringTextInputFormatter.deny(RegExp('[ ]'))`. -/
def denySpaces (text : String) : String := String.ofList (text.toList.filter (· ≠ ' '))

def LowerCaseTextFormatter.formatEditUpdate (T : CaseTable) (text : String) : String :=
  T.lowerString text

/-- What the field holds when the text has been typed: the formatters, in
their order. -/
def usernameField (T : CaseTable) (text : String) : String :=
  LowerCaseTextFormatter.formatEditUpdate T (denySpaces text)

/-- The button is enabled, and the field has not cut the text off. -/
def UsernameAccepted (T : CaseTable) (G : Graphemes) (text : String) : Prop :=
  2 < (ofString (usernameField T text)).length ∧ G.count (ofString (usernameField T text)) ≤ 15

section Field

variable {T : CaseTable} {text : String}

theorem toList_usernameField (T : CaseTable) (text : String) :
    (usernameField T text).toList = (text.toList.filter (· ≠ ' ')).flatMap T.lower := by
  rw [usernameField, LowerCaseTextFormatter.formatEditUpdate, CaseTable.lowerString,
    String.toList_ofList, denySpaces, String.toList_ofList]

/-- What the field makes of a text it leaves alone. -/
theorem usernameField_usernameField (T : CaseTable) (text : String) :
    usernameField T (usernameField T text) = usernameField T text := by
  let kept := text.toList.filter (· ≠ ' ')
  have hnospace : ∀ d ∈ kept.flatMap T.lower, d ≠ ' ' := by
    rintro d hd rfl
    obtain ⟨c, hc, hmem⟩ := List.mem_flatMap.mp hd
    have hne := (List.mem_filter.mp hc).2
    simp [T.space_lower c hmem] at hne
  have hfilter : (kept.flatMap T.lower).filter (· ≠ ' ') = kept.flatMap T.lower :=
    List.filter_eq_self.mpr fun d hd => decide_eq_true (hnospace d hd)
  have hfixed : (kept.flatMap T.lower).flatMap T.lower = kept.flatMap T.lower := by
    rw [List.flatMap_assoc]
    refine List.flatMap_congr fun c _ => ?_
    rw [List.flatMap_congr (T.lower_lower c), List.flatMap_singleton']
  rw [← String.toList_inj, toList_usernameField, toList_usernameField, hfilter, hfixed]

/-- Typing goes through the formatters piece by piece, with the same end. -/
theorem usernameField_append (T : CaseTable) (text more : String) :
    usernameField T (usernameField T text ++ more) = usernameField T (text ++ more) := by
  have h := congrArg String.toList (usernameField_usernameField T text)
  rw [toList_usernameField] at h
  rw [← String.toList_inj, toList_usernameField, toList_usernameField, String.toList_append,
    String.toList_append, List.filter_append, List.filter_append, List.flatMap_append,
    List.flatMap_append, h, toList_usernameField]

end Field

/-! ## Runs -/

/-- One operation, run to its end with no failure, or anything else that
leaves the names of the users and the directory as they are. -/
inductive FormStep (T : CaseTable) (G : Graphemes) : AppState → AppState → Prop
  | startOnboarding {st st' : AppState} (uid name : String) (email : Option String) :
      Prog.eval (serve {}) (OnboardingBloc.startOnboarding (signUpUser uid name email)) st
        = (.ok (), st') → FormStep T G st st'
  | setUsername {st st' : AppState} {user : User} {uid : String} (text : String) :
      UsernameAccepted T G text → user.id = some uid →
      Prog.eval (serve {}) (setUsername user (usernameField T text)) st = (.ok (), st') →
      FormStep T G st st'
  | updateUsername {st st' : AppState} {user : User} {uid oldName : String} (text : String) :
      UsernameAccepted T G text →
      User.fromSnapshot uid (st.store.get (.users uid)) = .ok user →
      user.userName = some oldName → oldName ≠ "" →
      Prog.eval (serve {}) (changeUsername user (usernameField T text)) st = (.ok (), st') →
      FormStep T G st st'
  | updateName {st st' : AppState} {user : User} {uid : String} (name : String) :
      User.fromSnapshot uid (st.store.get (.users uid)) = .ok user →
      Prog.eval (serve {}) (SettingsBloc.updateName (user.copyWith { name := some name })) st
        = (.ok (), st') → FormStep T G st st'
  | deleteAccount {st st' : AppState} {user : User} {uid : String}
      (accountDeleted : Except Err Unit) :
      user.id = some uid →
      Prog.eval (serve {}) (SettingsBloc.deleteAccount accountDeleted user) st
        = (.ok (), st') → FormStep T G st st'
  | other {st st' : AppState} :
      (∀ n, st'.store.get (.usernames n) = st.store.get (.usernames n)) →
      (∀ u, st'.store.field (.users u) "userName" = st.store.field (.users u) "userName") →
      FormStep T G st st'

/-- Every name in the directory is what the form makes of it. -/
def Formatted (T : CaseTable) (s : Store Path) : Prop :=
  ∀ n, s.get (.usernames n) ≠ none → usernameField T n = n

section Steps

variable {T : CaseTable} {G : Graphemes} {st st' : AppState} {s s' : Store Path}

theorem FormStep.directory (hs : FormStep T G st st') (h : Directory st.store) :
    Directory st'.store := by
  cases hs with
  | startOnboarding uid name email heval => exact h.step (.startOnboarding uid name email heval)
  | setUsername text _ hid heval => exact h.step (.setUsername _ hid heval)
  | updateUsername text _ hread hm hne heval => exact h.step (.updateUsername _ hread hm hne heval)
  | updateName name hread heval => exact h.step (.updateName name hread heval)
  | deleteAccount accountDeleted hid heval => exact h.step (.deleteAccount accountDeleted hid heval)
  | other hnames husers =>
    intro u n hn
    rw [HasName, husers u] at hn
    rw [Registered, Store.field_congr (hnames n)]
    exact h u n hn

/-- Writes to the users leave the directory alone. -/
theorem Formatted.userWrite (h : Formatted T s) {w : Write Path} {uid : String}
    (hw : w.apply s = some s') (hpath : w.path = .users uid) : Formatted T s' := by
  intro n hn
  rw [w.get_of_ne hw (by rw [hpath]; exact Path.noConfusion)] at hn
  exact h n hn

theorem Formatted.register (h : Formatted T s) (text uid : String) :
    Formatted T (s.put (.usernames (usernameField T text)) (registration uid)) := by
  intro n hn
  rw [Store.get_put] at hn
  split at hn
  · next hpath =>
    obtain rfl := Path.usernames.inj hpath
    exact usernameField_usernameField T text
  · exact h n hn

theorem Formatted.deregister (h : Formatted T s) (m : String) :
    Formatted T (s.del (.usernames m)) := by
  intro n hn
  rw [Store.get_del] at hn
  split at hn
  · exact absurd rfl hn
  · exact h n hn

theorem FormStep.formatted (hs : FormStep T G st st') (h : Formatted T st.store) :
    Formatted T st'.store := by
  cases hs with
  | startOnboarding uid name email heval =>
    have hid : (signUpUser uid name email).id = some uid := rfl
    exact h.userWrite (eval_startOnboarding hid heval) rfl
  | @setUsername user uid text _ hid heval =>
    rcases eval_setUsername hid heval with rfl | ⟨-, hw⟩
    · exact h
    · split at hw
      · exact h.userWrite hw rfl
      · exact (h.register text uid).userWrite hw rfl
  | @updateUsername user uid m text _ hread hm hne heval =>
    rcases eval_changeUsername (User.fromSnapshot_ok hread).1 hm heval with rfl | ⟨-, hw⟩
    · exact h
    · exact ((h.deregister m).register text uid).userWrite hw rfl
  | @updateName user uid name hread heval =>
    have hid : (user.copyWith { name := some name }).id = some uid :=
      (User.fromSnapshot_ok hread).1
    exact h.userWrite (eval_updateName hid heval) rfl
  | deleteAccount accountDeleted hid heval =>
    exact h.userWrite (eval_deleteAccount hid heval) rfl
  | other hnames _ =>
    intro n hn
    rw [hnames] at hn
    exact h n hn

/-- What a run keeps. -/
theorem formRun_kept (hrun : Relation.ReflTransGen (FormStep T G) st st')
    (hdir : Directory st.store) (hformatted : Formatted T st.store) :
    Directory st'.store ∧ Formatted T st'.store := by
  induction hrun with
  | refl => exact ⟨hdir, hformatted⟩
  | tail _ hs ih => exact ⟨hs.directory ih.1, hs.formatted ih.2⟩

end Steps

/-! ## Looking a name up -/

/-- `inviteContributorToList` finds user `u` by the text: it returns `true`,
with its listener on the document of `u`. -/
def Finds (st : AppState) (firebaseUser : AuthUser) (placeList : PlaceList)
    (senderUsername text u : String) : Prop :=
  Prog.eval (serve {}) (PlaceListRepository.inviteContributorToList firebaseUser placeList text
      senderUsername) st =
    (.ok (some true), st.open_ (.users u)
      (.inviteContributor u firebaseUser placeList senderUsername))

section Finding

variable {st : AppState} {firebaseUser : AuthUser} {placeList : PlaceList}
  {senderUsername text u : String}

theorem finds_of_registered (h : Registered st.store text u) :
    Finds st firebaseUser placeList senderUsername text u := by
  rw [Finds, PlaceListRepository.inviteContributorToList, Fire.onFirebaseException, Prog.bind_eq,
    Prog.eval_tryCatch, Prog.eval_bind, eval_checkUsernameExists st text h]
  simp [Fire.listen, serve]

/-- The user that is found is the one that the directory has under the very
text. -/
theorem finds_iff_registered :
    Finds st firebaseUser placeList senderUsername text u ↔ Registered st.store text u := by
  refine ⟨fun h => ?_, finds_of_registered⟩
  rcases inviteContributorToList_cases (fun _ => {}) st firebaseUser placeList text
    senderUsername with ⟨hfound, -⟩ | ⟨-, hnot⟩
  · obtain ⟨-, v, hv⟩ := hfound
    have hv' : Finds st firebaseUser placeList senderUsername text v := finds_of_registered hv
    have hstate := congrArg (fun r => r.2.listeners.getLast?) (h.symm.trans hv')
    simp only [State.open_, List.getLast?_concat, Option.some.injEq, Prod.mk.injEq,
      Path.users.injEq] at hstate
    rw [hstate.1]
    exact hv
  · exact absurd (congrArg Prod.fst h) hnot

end Finding

/-- In every run from a database without users and names: as long as user `u`
has the name that the form makes of a text, `inviteContributorToList` finds `u`
by that text just when it is what the form makes of it. -/
theorem username_finds_iff {T : CaseTable} {G : Graphemes} {s : Store Path} {st : AppState}
    (husers : ∀ u, s.get (.users u) = none) (hnames : ∀ n, s.get (.usernames n) = none)
    (hrun : Relation.ReflTransGen (FormStep T G) { store := s } st) {u text : String}
    (hname : HasName st.store u (usernameField T text)) (firebaseUser : AuthUser)
    (placeList : PlaceList) (senderUsername : String) :
    Finds st firebaseUser placeList senderUsername text u ↔ text = usernameField T text := by
  have hempty : Directory s := fun v n hn => absurd hn (not_hasName (husers v))
  have hkept := formRun_kept hrun hempty fun n hn => absurd (hnames n) hn
  rw [finds_iff_registered]
  constructor
  · intro h
    exact (hkept.2 text h.get_ne_none).symm
  · intro h
    rw [← h] at hname
    exact hkept.1 u text hname

/-- `ada` signs up and types `Ada_L` as her user name. -/
def adaTyped : AppState :=
  (Prog.eval (serve {}) (setUsername (signUpUser "ada" "Ada" none) "ada_l")
    (Prog.eval (serve {}) (OnboardingBloc.startOnboarding (signUpUser "ada" "Ada" none))
      ({ store := ∅ } : AppState)).2).2

theorem usernameField_adaL : usernameField .ascii "Ada_L" = "ada_l" := by decide

theorem usernameAccepted_adaL : UsernameAccepted .ascii .marks "Ada_L" := by
  rw [UsernameAccepted, usernameField_adaL]
  decide

theorem formRun_adaTyped :
    Relation.ReflTransGen (FormStep .ascii .marks) { store := ∅ } adaTyped := by
  let st₁ := (Prog.eval (serve {}) (OnboardingBloc.startOnboarding
    (signUpUser "ada" "Ada" none)) ({ store := ∅ } : AppState)).2
  have h₁ : FormStep .ascii .marks { store := ∅ } st₁ := .startOnboarding "ada" "Ada" none rfl
  have heval : Prog.eval (serve {}) (setUsername (signUpUser "ada" "Ada" none)
      (usernameField .ascii "Ada_L")) st₁ = (.ok (), adaTyped) := by
    rw [usernameField_adaL]
    rfl
  exact (Relation.ReflTransGen.single h₁).tail (.setUsername "Ada_L" usernameAccepted_adaL rfl heval)

/-- The list that the invite is for. -/
def bobsList : PlaceList where
  placeListId := some "rome"
  name := "Rome"
  listOwnerId := "bob"
  icon := []
  placeCount := 0

theorem username_finds_adaL :
    Finds adaTyped { uid := "bob" } bobsList "bob" "ada_l" "ada" := by
  have hname : HasName adaTyped.store "ada" (usernameField .ascii "ada_l") := by decide
  exact (username_finds_iff Store.get_empty Store.get_empty formRun_adaTyped hname
    { uid := "bob" } bobsList "bob").mpr (by decide)

/-- The text that `ada` typed does not find her. -/
theorem username_lost_adaL :
    Relation.ReflTransGen (FormStep .ascii .marks) { store := ∅ } adaTyped ∧
      UsernameAccepted .ascii .marks "Ada_L" ∧
      HasName adaTyped.store "ada" (usernameField .ascii "Ada_L") ∧
      ¬ Finds adaTyped { uid := "bob" } bobsList "bob" "Ada_L" "ada" := by
  refine ⟨formRun_adaTyped, usernameAccepted_adaL, by decide, ?_⟩
  rw [finds_iff_registered]
  decide

end GottaGo
