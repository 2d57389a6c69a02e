/-
GottaGo.Bloc.Cubits — `LoginCubit` and `SignUpCubit` (`lib/cubit/cubit/`).

A cubit has methods where a bloc has events; they are handlers here. The
three methods of `LoginCubit` that log in return at once while the status is
`submitting`; those of `SignUpCubit` do not look at the status. What a
repository call throws ends the method where it is, or is caught and
dropped, which comes to the same: nothing is emitted.

`copyWith` keeps a field for which it is given nothing or `null`.

`emit` drops a state that equals the current one, but not the first state that
is emitted. For `LoginState` nothing comes of it. The `props` of `SignUpState`
leave out the name, and so a change of name alone is dropped
(`SignUpCubit.emit_name`).
-/
import GottaGo.Async.Submission
import GottaGo.Repository.Database

namespace GottaGo

open GottaGo.Async GottaGo.Firestore

deriving instance DecidableEq for AuthUser

/-- The calls to `AuthRepository`. -/
inductive AuthCall where
  | logInWithEmailAndPassword (email password : String)
  | signInWithGoogle
  | signInWithApple
  | signUp (email password : String)
  | signOut

/-- What they return. -/
abbrev AuthCall.Answer : AuthCall → Type
  | .logInWithEmailAndPassword _ _ => Unit
  | .signInWithGoogle => Option AuthUser
  | .signInWithApple => Option AuthUser
  | .signUp _ _ => Option AuthUser
  | .signOut => Unit

/-- A method of a cubit. -/
abbrev CubitMethod (S α : Type) := Handler S AuthCall AuthCall.Answer Err α

/-- `try { t } catch (e) {}`. -/
def CubitMethod.orNothing {S : Type} (t : CubitMethod S Unit) : CubitMethod S Unit :=
  t.tryCatch fun _ => .ret ()

open Handler

/-! ## Logging in (`login_cubit.dart`) -/

inductive LoginStatus where
  | initial
  | submitting
  | success
  | error
  deriving DecidableEq, Repr

structure LoginState where
  email : String := ""
  password : String := ""
  status : LoginStatus := .initial
  user : Option AuthUser := none

/-- The public methods. -/
inductive LoginMethod where
  | emailChanged (value : String)
  | passwordChanged (value : String)
  | logInWithCredentials
  | logInWithGoogle
  | logInWithApple
  | logout

namespace LoginCubit

def emailChanged (value : String) : CubitMethod LoginState Unit := do
  let state ← Handler.state
  emit { state with email := value, status := .initial }

def passwordChanged (value : String) : CubitMethod LoginState Unit := do
  let state ← Handler.state
  emit { state with password := value, status := .initial }

/-- `emit(state.copyWith(status: status))`. -/
def emitStatus (status : LoginStatus) : CubitMethod LoginState Unit := do
  let state ← Handler.state
  emit { state with status := status }

/-- What the login methods begin with. -/
def guarded (body : CubitMethod LoginState Unit) : CubitMethod LoginState Unit := do
  let state ← Handler.state
  if state.status = .submitting then return
  emitStatus .submitting
  body

def logInWithCredentials : CubitMethod LoginState Unit :=
  guarded do
    let state ← Handler.state
    CubitMethod.orNothing do
      call (AuthCall.logInWithEmailAndPassword state.email state.password)
      emitStatus .success

def logInWithGoogle : CubitMethod LoginState Unit :=
  guarded do
    let user ← call AuthCall.signInWithGoogle
    emitStatus (if user.isSome then .success else .error)

def logInWithApple : CubitMethod LoginState Unit :=
  guarded do
    let user ← call AuthCall.signInWithApple
    emitStatus (if user.isSome then .success else .error)

def logout : CubitMethod LoginState Unit := do
  call AuthCall.signOut
  emitStatus .initial

def method : LoginMethod → CubitMethod LoginState Unit
  | .emailChanged value => emailChanged value
  | .passwordChanged value => passwordChanged value
  | .logInWithCredentials => logInWithCredentials
  | .logInWithGoogle => logInWithGoogle
  | .logInWithApple => logInWithApple
  | .logout => logout

/-- What the methods do before they await their call. -/
def kind : LoginMethod → Kind
  | .emailChanged _ => .edit
  | .passwordChanged _ => .edit
  | .logInWithCredentials => .guarded
  | .logInWithGoogle => .guarded
  | .logInWithApple => .guarded
  | .logout => .silent

/-- A request is in flight, by what the state says. -/
def Submitting (state : LoginState) : Prop := state.status = .submitting

/-- A guarded method makes its call unless the status is `submitting`. -/
theorem starts_guarded {body : CubitMethod LoginState Unit}
    (hbody : body.Starts Submitting .silent) : (guarded body).Starts Submitting .guarded := by
  intro b
  have hsettle : (guarded body).settle b =
      settle (if b.state.status = .submitting then (.ret () : CubitMethod LoginState Unit)
        else (emitStatus .submitting).bind fun _ => body) b := rfl
  rw [hsettle]
  constructor
  · intro h
    rw [Submitting] at h
    rw [if_pos h]
    exact ⟨trivial, rfl⟩
  · intro h
    rw [Submitting] at h
    rw [if_neg h]
    obtain ⟨hcall, hsame⟩ := hbody (b.emit { b.state with status := .submitting })
    exact ⟨hcall, congrArg LoginState.status hsame⟩

theorem starts_method (m : LoginMethod) : (method m).Starts Submitting (kind m) := by
  intro b
  cases m with
  | emailChanged value => exact ⟨trivial, LoginStatus.noConfusion⟩
  | passwordChanged value => exact ⟨trivial, LoginStatus.noConfusion⟩
  | logInWithCredentials =>
    refine starts_guarded ?_ b
    intro b
    exact ⟨⟨fun _ _ => ⟨trivial, LoginStatus.noConfusion⟩, fun _ _ => ⟨trivial, rfl⟩⟩, rfl⟩
  | logInWithGoogle =>
    refine starts_guarded ?_ b
    intro b
    refine ⟨⟨fun user _ => ?_, fun _ _ => ⟨trivial, rfl⟩⟩, rfl⟩
    cases user <;> exact ⟨trivial, LoginStatus.noConfusion⟩
  | logInWithApple =>
    refine starts_guarded ?_ b
    intro b
    refine ⟨⟨fun user _ => ?_, fun _ _ => ⟨trivial, rfl⟩⟩, rfl⟩
    cases user <;> exact ⟨trivial, LoginStatus.noConfusion⟩
  | logout =>
    exact ⟨⟨fun _ _ => ⟨trivial, LoginStatus.noConfusion⟩, fun _ _ => ⟨trivial, rfl⟩⟩, rfl⟩

end LoginCubit

/-! ## Signing up (`sign_up_cubit.dart`) -/

inductive SignupStatus where
  | initial
  | submitting
  | success
  | error
  deriving DecidableEq, Repr

structure SignUpState where
  user : Option AuthUser := none
  email : String := ""
  name : String := ""
  password : String := ""
  status : SignupStatus := .initial

/-- By which states are compared. -/
def SignUpState.props (state : SignUpState) :
    Option AuthUser × String × String × SignupStatus :=
  (state.user, state.email, state.password, state.status)

/-- `emitted` says whether a state has been emitted. -/
structure SignUpCubit where
  state : SignUpState := {}
  emitted : Bool := false

/-- The public methods. -/
inductive SignUpMethod where
  | emailChanged (email : String)
  | passwordChanged (password : String)
  | nameChanged (name : String)
  | signUpWithCredential
  | signUpWithGoogle
  | signUpWithApple

namespace SignUpCubit

/-- The cubit after `emit`. -/
def emit (state : SignUpState) (cubit : SignUpCubit) : SignUpCubit :=
  if cubit.emitted ∧ state.props = cubit.state.props then cubit
  else { state := state, emitted := true }

/-- The status is one of the `props`. -/
@[simp] theorem status_emit (state : SignUpState) (cubit : SignUpCubit) :
    (cubit.emit state).state.status = state.status := by
  unfold emit
  split
  · next h => exact (congrArg (fun props => props.2.2.2) h.2).symm
  · rfl

/-- A change of name alone comes to nothing, unless it is the first that the
cubit is told. -/
theorem emit_name {cubit : SignUpCubit} (hemitted : cubit.emitted = true)
    (hinitial : cubit.state.status = .initial) (name : String) :
    cubit.emit { cubit.state with name := name, status := .initial } = cubit :=
  if_pos ⟨hemitted, by simp [SignUpState.props, hinitial]⟩

/-- `emit(next(state))`. -/
def emitting (next : SignUpState → SignUpState) : CubitMethod SignUpCubit Unit := do
  let cubit ← Handler.state
  Handler.emit (cubit.emit (next cubit.state))

def emailChanged (email : String) : CubitMethod SignUpCubit Unit :=
  emitting fun state => { state with email := email, status := .initial }

def passwordChanged (password : String) : CubitMethod SignUpCubit Unit :=
  emitting fun state => { state with password := password, status := .initial }

def nameChanged (name : String) : CubitMethod SignUpCubit Unit :=
  emitting fun state => { state with name := name, status := .initial }

/-- `emit(state.copyWith(status: status, user: user))`. -/
def emitStatus (status : SignupStatus) (user : Option AuthUser) :
    CubitMethod SignUpCubit Unit :=
  emitting fun state => { state with status := status, user := user.or state.user }

def signUpWithCredential : CubitMethod SignUpCubit Unit := do
  emitStatus .submitting none
  let cubit ← Handler.state
  CubitMethod.orNothing do
    let _ ← call (AuthCall.signUp cubit.state.email cubit.state.password)
    emitStatus .success none

def signUpWithGoogle : CubitMethod SignUpCubit Unit := do
  emitStatus .submitting none
  CubitMethod.orNothing do
    let user ← call AuthCall.signInWithGoogle
    emitStatus .success user

def signUpWithApple : CubitMethod SignUpCubit Unit := do
  emitStatus .submitting none
  CubitMethod.orNothing do
    let user ← call AuthCall.signInWithApple
    emitStatus .success user

def method : SignUpMethod → CubitMethod SignUpCubit Unit
  | .emailChanged email => emailChanged email
  | .passwordChanged password => passwordChanged password
  | .nameChanged name => nameChanged name
  | .signUpWithCredential => signUpWithCredential
  | .signUpWithGoogle => signUpWithGoogle
  | .signUpWithApple => signUpWithApple

/-- What the methods do before they await their call. -/
def kind : SignUpMethod → Kind
  | .emailChanged _ => .edit
  | .passwordChanged _ => .edit
  | .nameChanged _ => .edit
  | .signUpWithCredential => .unguarded
  | .signUpWithGoogle => .unguarded
  | .signUpWithApple => .unguarded

/-- A request is in flight, by what the state says. -/
def Submitting (cubit : SignUpCubit) : Prop := cubit.state.status = .submitting

theorem submitting_emit {state : SignUpState} {cubit : SignUpCubit} :
    Submitting (cubit.emit state) ↔ state.status = .submitting := by
  rw [Submitting, status_emit]

/-- A method that edits a field leaves the status `initial`. -/
theorem starts_edit {next : SignUpState → SignUpState}
    (hnext : ∀ state, (next state).status = .initial) :
    (emitting next).Starts Submitting .edit := by
  intro b
  refine ⟨trivial, fun h => ?_⟩
  have hsubmitting : (next b.state.state).status = .submitting := submitting_emit.mp h
  rw [hnext] at hsubmitting
  cases hsubmitting

theorem not_submitting_success {state : SignUpState} {cubit : SignUpCubit}
    (h : state.status = .success) : ¬ Submitting (cubit.emit state) := by
  rw [submitting_emit, h]
  exact SignupStatus.noConfusion

theorem starts_method (m : SignUpMethod) : (method m).Starts Submitting (kind m) := by
  cases m with
  | emailChanged email =>
    have hedit : (emailChanged email).Starts Submitting .edit := starts_edit fun _ => rfl
    exact hedit
  | passwordChanged password =>
    have hedit : (passwordChanged password).Starts Submitting .edit := starts_edit fun _ => rfl
    exact hedit
  | nameChanged name =>
    have hedit : (nameChanged name).Starts Submitting .edit := starts_edit fun _ => rfl
    exact hedit
  | signUpWithCredential =>
    intro b
    exact ⟨⟨fun _ _ => ⟨trivial, not_submitting_success rfl⟩, fun _ _ => ⟨trivial, rfl⟩⟩,
      submitting_emit.mpr rfl⟩
  | signUpWithGoogle =>
    intro b
    exact ⟨⟨fun _ _ => ⟨trivial, not_submitting_success rfl⟩, fun _ _ => ⟨trivial, rfl⟩⟩,
      submitting_emit.mpr rfl⟩
  | signUpWithApple =>
    intro b
    exact ⟨⟨fun _ _ => ⟨trivial, not_submitting_success rfl⟩, fun _ _ => ⟨trivial, rfl⟩⟩,
      submitting_emit.mpr rfl⟩

end SignUpCubit

end GottaGo
