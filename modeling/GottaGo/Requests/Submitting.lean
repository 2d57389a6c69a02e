/-
GottaGo.Requests.Submitting — when the status of a cubit says whether a
request is in flight.

The status is also set by an edit of a field, left as it is by a call that
throws, and not set by `logout`; and the methods that sign up start a second
request next to a first. In a run in which none of this happens the status
is `submitting` just while a call to the repository is in flight, and in no
other run (`submitting_iff_inFlight`).
-/
import GottaGo.Bloc.Cubits

namespace GottaGo

open GottaGo.Async

abbrev LoginRun := Running LoginState AuthCall LoginMethod AuthCall.Answer Firestore.Err

abbrev SignUpRun := Running SignUpCubit AuthCall SignUpMethod AuthCall.Answer Firestore.Err

abbrev LoginMove := Move LoginMethod AuthCall AuthCall.Answer Firestore.Err

abbrev SignUpMove := Move SignUpMethod AuthCall AuthCall.Answer Firestore.Err

/-- A cubit that has just been created. -/
def LoginCubit.created : LoginRun := ⟨{ state := {} }, [], 0⟩

def SignUpCubit.created : SignUpRun := ⟨{ state := {} }, [], 0⟩

/-- The run, if its steps can happen and keep the promise `ok`. -/
def LoginCubit.run (ok : LoginRun → LoginMove → Bool) (ms : List LoginMove) : Option LoginRun :=
  Events.replay (Running.step method) ok created ms

def SignUpCubit.run (ok : SignUpRun → SignUpMove → Bool) (ms : List SignUpMove) :
    Option SignUpRun :=
  Events.replay (Running.step method) ok created ms

/-- In every run of either cubit, with every outcome of every call: in every
state on the way the status is `submitting` just when a call is in flight,
if and only if every step keeps the promise. With such a status a login
method makes its call just when none is in flight. -/
theorem submitting_iff_inFlight (logins : List LoginMove) (signUps : List SignUpMove) :
    ((LoginCubit.run Events.free logins).isSome →
      ((∀ k b, LoginCubit.run Events.free (logins.take k) = some b →
          (b.bloc.state.status = .submitting ↔ 0 < b.inFlight)) ↔
        (LoginCubit.run (Running.keepsBusy LoginCubit.kind) logins).isSome)) ∧
    ((SignUpCubit.run Events.free signUps).isSome →
      ((∀ k b, SignUpCubit.run Events.free (signUps.take k) = some b →
          (b.bloc.state.state.status = .submitting ↔ 0 < b.inFlight)) ↔
        (SignUpCubit.run (Running.keepsBusy SignUpCubit.kind) signUps).isSome)) ∧
    ∀ b : LoginRun, (b.bloc.state.status = .submitting ↔ 0 < b.inFlight) →
      ∀ m, LoginCubit.kind m = .guarded →
        ((b.add LoginCubit.method m).inFlight = b.inFlight + 1 ↔ b.inFlight = 0) := by
  refine ⟨fun h => ?_, fun h => ?_, fun b hb m hm => ?_⟩
  · exact Running.busy_iff_inFlight LoginCubit.starts_method (s := {}) LoginStatus.noConfusion h
  · exact Running.busy_iff_inFlight SignUpCubit.starts_method (s := {}) SignupStatus.noConfusion h
  · have hstarts := LoginCubit.starts_method m
    rw [hm] at hstarts
    exact Running.guarded_starts_iff hstarts hb

/-! ## Logins and a sign-up -/

/-- What the repository answers when `ada` signs in with Google. -/
def googleAnswers : (c : AuthCall) → Except Firestore.Err c.Answer
  | .logInWithEmailAndPassword _ _ => .ok ()
  | .signInWithGoogle => .ok (some { uid := "ada" })
  | .signInWithApple => .ok none
  | .signUp _ _ => .ok none
  | .signOut => .ok ()

/-- `ada` signs in with Google, and comes back. -/
def googleLogin : List LoginMove := [.add .logInWithGoogle, .answer 0 googleAnswers]

/-- She signs up with Google, with a name that she changes first. -/
def googleSignUp : List SignUpMove :=
  [.add (.nameChanged "Ada"), .add (.nameChanged "Ada L."), .add .signUpWithGoogle,
    .answer 2 googleAnswers]

/-- The password is wrong. -/
def failedLogin : List LoginMove :=
  [.add .logInWithCredentials, .answer 0 fun _ => .error .exception]

theorem submitting_google :
    ((LoginCubit.run Events.free googleLogin).isSome ∧
      ∀ k b, LoginCubit.run Events.free (googleLogin.take k) = some b →
        (b.bloc.state.status = .submitting ↔ 0 < b.inFlight)) ∧
    (SignUpCubit.run Events.free googleSignUp).isSome ∧
      ∀ k b, SignUpCubit.run Events.free (googleSignUp.take k) = some b →
        (b.bloc.state.state.status = .submitting ↔ 0 < b.inFlight) := by
  obtain ⟨hlogin, hsignUp, -⟩ := submitting_iff_inFlight googleLogin googleSignUp
  exact ⟨⟨by decide, (hlogin (by decide)).mpr (by decide)⟩,
    by decide, (hsignUp (by decide)).mpr (by decide)⟩

/-- The exception is dropped, and the status stays `submitting`. -/
theorem submitting_without_request :
    ¬ ∀ ms b, LoginCubit.run Events.free ms = some b →
      (b.bloc.state.status = .submitting ↔ 0 < b.inFlight) := by
  intro h
  have hrun : (LoginCubit.run Events.free failedLogin).any (fun b =>
    b.bloc.state.status = .submitting && b.inFlight = 0) = true := by decide
  obtain ⟨b, hb, hstuck⟩ := (Option.any_eq_true _ _).mp hrun
  simp only [Bool.and_eq_true, decide_eq_true_eq] at hstuck
  have hpos := (h failedLogin b hb).mp hstuck.1
  omega

end GottaGo
