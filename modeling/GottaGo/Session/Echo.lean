/-
GottaGo.Session.Echo — the listener that `OnboardingBloc` leaves open on the
user's document, and the updates it causes (`onboarding_bloc.dart`,
`storage_repository.dart`).

`UpdateUserProfilePicture` uploads a picture and listens to the user. Every
snapshot adds `UpdateUser`, whose handler writes the six fields of the user
that it was given back to the document, which may be another one by then.

`echoes_settle_iff`: in a run, no such write ever changes the document, and
the writes come to an end, just when every outside change leaves the
document with the fields of every user that is still to be written. In
`echo_overwrites` a change comes between a snapshot and its update, and is
lost.
-/
import GottaGo.Async.Bounded
import GottaGo.Async.Events
import GottaGo.Bloc.Handlers
import GottaGo.Model.DocumentsTheorems

namespace GottaGo

open GottaGo.Async GottaGo.Firestore

/-! ## The handler of `UpdateUserProfilePicture` -/

/-- `downloadUrl` is the outcome of `StorageRepository.getDownloadUrl`. -/
def DatabaseRepository.updateUserPictures (downloadUrl : Except Err String) (user : User) :
    App Unit :=
  rethrowing do
    let downloadUrl ← Prog.ofExcept downloadUrl
    let ref ← Fire.doc .users user.id
    Fire.update ref [("profilePicture", .put (.str downloadUrl))]

/-- `putFile` is the outcome of the upload. Everything thrown is caught. -/
def StorageRepository.uploadImage (putFile : Except Err Unit) (downloadUrl : Except Err String)
    (user : User) : App Unit :=
  Prog.tryCatch
    (do
      Prog.ofExcept putFile
      DatabaseRepository.updateUserPictures downloadUrl user)
    fun _ => .ret ()

/-- The handler. It returns the id of the document that it listens to. -/
def OnboardingBloc.updateUserProfilePicture (putFile : Except Err Unit)
    (downloadUrl : Except Err String) (user : User) : App String := do
  StorageRepository.uploadImage putFile downloadUrl user
  Fire.bang user.id

/-! ## The echo -/

/-- The listener on the document of `userId`: the snapshots that it has not
been handed, and the handlers of `UpdateUser` that it has caused, each with
the user of its event. -/
structure Echo where
  userId : String
  db : AppState
  due : List (Option Doc)
  handlers : List (User × App Unit) := []

namespace Echo

/-- The listener that the handler of `UpdateUserProfilePicture` opens. -/
def opened (π : Req Path Listener → Outcome) (putFile : Except Err Unit)
    (downloadUrl : Except Err String) (user : User) (st : AppState) : Option Echo :=
  match Prog.eval (serveBy π)
      (OnboardingBloc.updateUserProfilePicture putFile downloadUrl user) st with
  | (.ok userId, st') =>
    some { userId := userId, db := st', due := [st'.store.get (.users userId)] }
  | (.error _, _) => none

/-- The document that is listened to. -/
def doc (s : Echo) : Option Doc := s.db.store.get (.users s.userId)

/-- The database becomes `db`. A change of the document is owed to the
listener. -/
def withDb (s : Echo) (db : AppState) : Echo :=
  { s with
    db := db
    due :=
      if db.store.get (.users s.userId) = s.doc then s.due
      else s.due ++ [db.store.get (.users s.userId)] }

/-- Another writer changes the document. -/
def change (s : Echo) (w : Write Path) : Option Echo :=
  if w.path = .users s.userId then
    (w.apply s.db.store).map fun store => s.withDb (s.db.commit w store)
  else none

/-- The handler that a snapshot starts, if the snapshot can be read. -/
def heard (userId : String) (snap : Option Doc) : Option (User × App Unit) :=
  match User.fromSnapshot userId snap with
  | .ok user => some (user, OnboardingBloc.updateUser user)
  | .error _ => none

/-- The listener is handed snapshot `j` of those that are due. -/
def deliver (s : Echo) (j : Nat) : Option Echo :=
  s.due[j]?.map fun snap =>
    { s with
      due := s.due.eraseIdx j
      handlers := s.handlers ++ (heard s.userId snap).toList }

/-- Handler `i` goes on: its request is answered, with outcome `o`. -/
def advance (s : Echo) (i : Nat) (o : Outcome) : Option Echo :=
  s.handlers[i]?.bind fun h =>
    (Prog.next serve (fun _ _ _ => true) o s.db h.2).map fun r =>
      { s.withDb r.1 with handlers := s.handlers.set i (h.1, r.2) }

/-- What happens. -/
inductive Move where
  | change (w : Write Path)
  | deliver (j : Nat)
  | advance (i : Nat) (o : Outcome)

/-- What happens without another writer. -/
def Move.IsEcho : Move → Prop
  | .change _ => False
  | .deliver _ => True
  | .advance _ _ => True

def step (s : Echo) : Move → Option Echo
  | .change w => s.change w
  | .deliver j => s.deliver j
  | .advance i o => s.advance i o

/-- No write of the listener's handlers changes the document from here on,
and they come to an end, in at most `n` steps. -/
def Settles (s : Echo) : Prop :=
  ∃ n, ∀ ms s', (∀ m ∈ ms, m.IsEcho) → Events.replay step Events.free s ms = some s' →
    s'.doc = s.doc ∧ ms.length ≤ n

/-! ## When it settles -/

/-- The users that are still to be written: those of the handlers that have
not ended, and of the snapshots that start such a handler. -/
def toWrite (s : Echo) : List User :=
  ((s.handlers ++ s.due.filterMap (heard s.userId)).filter fun h => ¬ h.2.Ended).map Prod.fst

/-- The document has the six fields of the user. -/
def agrees (user : User) (doc : Option Doc) : Bool :=
  doc.all fun d => user.toDocument.all fun f => d.get? f.1 = some f.2

/-- Nothing that is still to be written is new to the document. -/
def Agrees (s : Echo) : Prop := ∀ user ∈ s.toWrite, agrees user s.doc = true

instance (s : Echo) : Decidable s.Agrees :=
  inferInstanceAs (Decidable (∀ user ∈ s.toWrite, agrees user s.doc = true))

/-- An outside change leaves the document with the fields of every user that
is still to be written, its own user included. -/
def keepsFields (s : Echo) : Move → Bool
  | .change w => (s.change w).all fun s' => s'.Agrees
  | .deliver _ => true
  | .advance _ _ => true

/-! ## The handler of `UpdateUser` -/

/-- The handler of `UpdateUser` has both its writes to make, or the second,
or none. -/
inductive Stage (user : User) : App Unit → Prop where
  | both : Stage user (OnboardingBloc.updateUser user)
  | second : Stage user (DatabaseRepository.updateUser user)
  | done {t : App Unit} (h : t.Ended) : Stage user t

/-- What the second write puts in the document. -/
def fieldsOf (user : User) : List (String × FieldWrite) :=
  user.toDocument.map fun f => (f.1, .put f.2)

theorem agrees_iff {user : User} {doc : Option Doc} :
    agrees user doc = true ↔ ∀ d, doc = some d → d.update (fieldsOf user) = d := by
  cases doc with
  | none => simp [agrees]
  | some d =>
    have h := d.update_put_eq_self_iff user.toDocument_nodup
    simp only [fieldsOf, Option.some.injEq, forall_eq', h]
    simp [agrees]

section Handler

variable {userId : String} {user : User} {st st' : AppState} {t t' : App Unit}

theorem rethrowing_write (w : Write Path) :
    rethrowing (Prog.await (.write w)) =
      .ask (.write w) fun r => rethrowing (Prog.ofExcept r) := rfl

/-- What the wrapper makes of an answer. -/
theorem rethrowing_ofExcept (r : Except Err Unit) :
    rethrowing (Prog.ofExcept r) = .ret () ∨ ∃ e, rethrowing (Prog.ofExcept r) = .raise e := by
  cases r with
  | ok a => exact .inl rfl
  | error e =>
    refine .inr ?_
    by_cases he : e = .firebase <;>
      simp [rethrowing, Fire.onFirebaseException, Prog.ofExcept, Prog.tryCatch, he]

theorem ended_rethrowing_ofExcept (r : Except Err Unit) :
    (rethrowing (Prog.ofExcept r)).Ended := by
  rcases rethrowing_ofExcept r with h | ⟨e, h⟩ <;> rw [h] <;> trivial

theorem updateUser_eq (hid : user.id = some userId) :
    DatabaseRepository.updateUser user =
      .ask (.write (.update (.users userId) (fieldsOf user)))
        fun r => rethrowing (Prog.ofExcept r) := by
  rw [← rethrowing_write, DatabaseRepository.updateUser, hid]
  rfl

/-- The handler throws, has one write to make, or registers the name first. -/
theorem onboarding_updateUser_cases (hid : user.id = some userId) :
    (OnboardingBloc.updateUser user).Ended ∨
      OnboardingBloc.updateUser user = DatabaseRepository.updateUser user ∨
      ∃ userName fs, OnboardingBloc.updateUser user =
        .ask (.write (.set (.usernames userName) fs)) fun r =>
          (rethrowing (Prog.ofExcept r)).bind fun _ => DatabaseRepository.updateUser user := by
  unfold OnboardingBloc.updateUser
  by_cases hempty : user.userName = some ""
  · exact .inr (.inl (by simp [hempty]))
  · cases hname : user.userName with
    | none => exact .inl (by simp [Fire.bang, Prog.bind, Prog.Ended])
    | some userName =>
      refine .inr (.inr ⟨userName, Doc.ofList [("userId", .str userId)], ?_⟩)
      have hne : userName ≠ "" := fun h => hempty (by rw [hname, h])
      simp only [ne_eq, Option.some.injEq, hne, not_false_eq_true, if_true, hid]
      rfl

/-- The document afterwards is the one before, or has the fields of the
user. -/
def Written (userId : String) (user : User) (st st' : AppState) : Prop :=
  st'.store.get (.users userId) = st.store.get (.users userId) ∨
    ∃ d, st.store.get (.users userId) = some d ∧
      st'.store.get (.users userId) = some (d.update (fieldsOf user))

/-- A program that has ended makes no step. -/
theorem next_of_ended (h : t.Ended) (o : Outcome) :
    Prog.next serve (fun _ _ _ => true) o st t = none := by
  cases t with
  | ret a => rfl
  | raise e => rfl
  | ask q k => exact h.elim

/-- The second write. -/
theorem written_second {r : Except Err Unit}
    (h : Answered (.write (.update (.users userId) (fieldsOf user))) st r st') :
    Written userId user st st' := by
  rcases h.write with ⟨-, rfl⟩ | ⟨s', hw, -, rfl⟩
  · exact .inl rfl
  · obtain ⟨d, hd, rfl⟩ := Write.apply_update_eq_some hw
    exact .inr ⟨d, hd, Store.get_put_self _ _ _⟩

/-- The first write, to another document. -/
theorem written_first {userName : String} {fs : Doc} {r : Except Err Unit}
    (h : Answered (.write (.set (.usernames userName) fs)) st r st') :
    Written userId user st st' := by
  rcases h.write with ⟨-, rfl⟩ | ⟨s', hw, -, rfl⟩
  · exact .inl rfl
  · exact .inl (Write.get_of_ne hw (by simp [Write.path]))

/-- What comes after the first write. -/
theorem Stage.afterFirst (r : Except Err Unit) :
    Stage user
      ((rethrowing (Prog.ofExcept r)).bind fun _ => DatabaseRepository.updateUser user) := by
  rcases rethrowing_ofExcept r with h | ⟨e, h⟩ <;> rw [h]
  · exact .second
  · exact .done trivial

/-- One step of the handler. -/
theorem Stage.next (h : Stage user t) (hid : user.id = some userId) {o : Outcome}
    (hnext : Prog.next serve (fun _ _ _ => true) o st t = some (st', t')) :
    Stage user t' ∧ Written userId user st st' := by
  have hsecond : t = DatabaseRepository.updateUser user →
      Stage user t' ∧ Written userId user st st' := by
    intro ht
    rw [ht, updateUser_eq hid] at hnext
    cases hnext
    exact ⟨.done (ended_rethrowing_ofExcept _), written_second ⟨o, rfl⟩⟩
  cases h with
  | both =>
    rcases onboarding_updateUser_cases hid with hended | hsame | ⟨userName, fs, hboth⟩
    · rw [next_of_ended hended] at hnext
      cases hnext
    · exact hsecond hsame
    · rw [hboth] at hnext
      cases hnext
      refine ⟨?_, written_first ⟨o, rfl⟩⟩
      exact .afterFirst _
  | second => exact hsecond rfl
  | done hended =>
    rw [next_of_ended hended] at hnext
    cases hnext

/-- The handler makes two requests at most. -/
theorem Stage.atMost (h : Stage user t) (hid : user.id = some userId) : t.AtMost 2 := by
  have hrethrown : ∀ r : Except Err Unit, (rethrowing (Prog.ofExcept r)).AtMost 0 :=
    fun r => (ended_rethrowing_ofExcept r).atMost
  have hsecond : (DatabaseRepository.updateUser user).AtMost 1 := by
    rw [updateUser_eq hid]
    exact fun r => hrethrown r
  cases h with
  | both =>
    rcases onboarding_updateUser_cases hid with hended | hsame | ⟨userName, fs, hboth⟩
    · exact hended.atMost.mono (Nat.zero_le 2)
    · rw [hsame]
      exact hsecond.mono (by omega)
    · rw [hboth]
      exact fun r => (hrethrown r).bind fun _ => hsecond
  | second => exact hsecond.mono (by omega)
  | done hended => exact hended.atMost.mono (Nat.zero_le 2)

/-- The second write goes through where there is a document and nothing
fails. -/
theorem next_second (hid : user.id = some userId) {d : Doc}
    (hd : st.store.get (.users userId) = some d) :
    ∃ st' t', Prog.next serve (fun _ _ _ => true) {} st (DatabaseRepository.updateUser user) =
      some (st', t') ∧ st'.store.get (.users userId) = some (d.update (fieldsOf user)) := by
  rw [updateUser_eq hid]
  refine ⟨_, _, rfl, ?_⟩
  simp [serve, Write.apply_update_of_get hd]

/-- The first write always goes through where nothing fails. -/
theorem next_first {userName : String} {fs : Doc} {k : Except Err Unit → App Unit} :
    Prog.next serve (fun _ _ _ => true) {} st (.ask (.write (.set (.usernames userName) fs)) k) =
      some (st.commit (.set (.usernames userName) fs) (st.store.put (.usernames userName) fs),
        k (.ok ())) := rfl

end Handler

/-! ## The system -/

variable {s s' : Echo} {m : Move}

/-- Every handler is at a stage of its user, who has the id of the
document. -/
def Staged (s : Echo) : Prop := ∀ h ∈ s.handlers, h.1.id = some s.userId ∧ Stage h.1 h.2

theorem heard_eq_some {userId : String} {snap : Option Doc} {h : User × App Unit}
    (hheard : heard userId snap = some h) :
    h.1.id = some userId ∧ h.2 = OnboardingBloc.updateUser h.1 := by
  unfold heard at hheard
  split at hheard
  · next user huser =>
    cases hheard
    exact ⟨(User.fromSnapshot_ok huser).1, rfl⟩
  · cases hheard

theorem mem_toWrite {user : User} :
    user ∈ s.toWrite ↔ ∃ t : App Unit, ¬ t.Ended ∧
      ((user, t) ∈ s.handlers ∨ ∃ snap ∈ s.due, heard s.userId snap = some (user, t)) := by
  simp only [toWrite, List.mem_map, List.mem_filter, List.mem_append, List.mem_filterMap,
    decide_eq_true_eq]
  constructor
  · intro huser
    obtain ⟨⟨_, t⟩, ⟨hmem, hne⟩, rfl⟩ := huser
    exact ⟨t, hne, hmem⟩
  · intro huser
    obtain ⟨t, hne, hmem⟩ := huser
    exact ⟨(user, t), ⟨hmem, hne⟩, rfl⟩

theorem advance_eq_some {i : Nat} {o : Outcome} (h : s.advance i o = some s') :
    ∃ user t db t', s.handlers[i]? = some (user, t) ∧
      Prog.next serve (fun _ _ _ => true) o s.db t = some (db, t') ∧
      s' = { s.withDb db with handlers := s.handlers.set i (user, t') } := by
  obtain ⟨⟨user, t⟩, hi, h⟩ := Option.bind_eq_some_iff.mp h
  obtain ⟨⟨db, t'⟩, hnext, rfl⟩ := Option.map_eq_some_iff.mp h
  exact ⟨user, t, db, t', hi, hnext, rfl⟩

theorem step_advance {i : Nat} {o : Outcome} {user : User} {t t' : App Unit} {db : AppState}
    (hi : s.handlers[i]? = some (user, t))
    (hnext : Prog.next serve (fun _ _ _ => true) o s.db t = some (db, t')) :
    Echo.step s (.advance i o) =
      some { s.withDb db with handlers := s.handlers.set i (user, t') } := by
  simp [Echo.step, advance, hi, hnext]

theorem Staged.step (h : s.Staged) (hstep : step s m = some s') : s'.Staged := by
  cases m with
  | change w =>
    simp only [Echo.step, change] at hstep
    split at hstep
    · obtain ⟨store, -, rfl⟩ := Option.map_eq_some_iff.mp hstep
      exact h
    · cases hstep
  | deliver j =>
    obtain ⟨snap, -, rfl⟩ := Option.map_eq_some_iff.mp hstep
    intro p hp
    rcases List.mem_append.mp hp with hp | hp
    · exact h p hp
    · obtain ⟨hid, hstart⟩ := heard_eq_some (Option.mem_toList.mp hp)
      exact ⟨hid, hstart ▸ .both⟩
  | advance i o =>
    obtain ⟨user, t, db, t', hi, hnext, rfl⟩ := advance_eq_some hstep
    obtain ⟨hid, hstage⟩ := h _ (List.mem_of_getElem? hi)
    intro p hp
    rcases List.mem_or_eq_of_mem_set hp with hp | rfl
    · exact h p hp
    · exact ⟨hid, (hstage.next hid hnext).1⟩

/-- The steps that are left at most. -/
noncomputable def left (s : Echo) : Nat :=
  3 * s.due.length + ((s.handlers.map Prod.snd).map Prog.height).sum

/-- Where nothing that is still to be written is new, a step of the echo
leaves the document, and less is left. -/
theorem Agrees.step (h : s.Agrees) (hstaged : s.Staged) (hm : m.IsEcho)
    (hstep : step s m = some s') : s'.Agrees ∧ s'.doc = s.doc ∧ s'.left < s.left := by
  cases m with
  | change w => exact hm.elim
  | deliver j =>
    obtain ⟨snap, hj, rfl⟩ := Option.map_eq_some_iff.mp hstep
    obtain ⟨hlt, hsnap⟩ := List.getElem?_eq_some_iff.mp hj
    refine ⟨?_, rfl, ?_⟩
    · intro user huser
      obtain ⟨t, hne, hmem⟩ := mem_toWrite.mp huser
      refine h user (mem_toWrite.mpr ⟨t, hne, ?_⟩)
      rcases hmem with hmem | ⟨snap', hsnap', hheard⟩
      · rcases List.mem_append.mp hmem with hmem | hmem
        · exact .inl hmem
        · exact .inr ⟨snap, List.mem_of_getElem? hj, Option.mem_toList.mp hmem⟩
      · exact .inr ⟨snap', List.mem_of_mem_eraseIdx hsnap', hheard⟩
    · have hfew : ((heard s.userId snap).toList.map fun h => h.2.height).sum ≤ 2 := by
        cases hheard : heard s.userId snap with
        | none => simp
        | some p =>
          obtain ⟨hid, hstart⟩ := heard_eq_some hheard
          have hstage : Stage p.1 p.2 := hstart ▸ .both
          simpa using Prog.height_le (hstage.atMost hid)
      simp only [left, List.length_eraseIdx_of_lt hlt, List.map_append, List.map_map,
        List.sum_append, Function.comp_def] at hfew ⊢
      omega
  | advance i o =>
    obtain ⟨user, t, db, t', hi, hnext, rfl⟩ := advance_eq_some hstep
    have hmem := List.mem_of_getElem? hi
    obtain ⟨hid, hstage⟩ := hstaged _ hmem
    have hne : ¬ t.Ended := by
      intro hended
      rw [next_of_ended hended] at hnext
      cases hnext
    have hdoc : db.store.get (.users s.userId) = s.doc := by
      rcases (hstage.next hid hnext).2 with hsame | ⟨d, hd, hwritten⟩
      · exact hsame
      · have hagrees := h user (mem_toWrite.mpr ⟨t, hne, .inl hmem⟩)
        rw [hwritten, agrees_iff.mp hagrees d hd]
        exact hd.symm
    have hdue : (s.withDb db).due = s.due := if_pos hdoc
    refine ⟨?_, hdoc, ?_⟩
    · intro user' huser'
      have hsame : ({ s.withDb db with handlers := s.handlers.set i (user, t') } : Echo).doc =
        s.doc := hdoc
      rw [hsame]
      obtain ⟨u, hu, hfrom⟩ := mem_toWrite.mp huser'
      rcases hfrom with hfrom | ⟨snap, hsnap, hheard⟩
      · rcases List.mem_or_eq_of_mem_set hfrom with hfrom | hfrom
        · exact h user' (mem_toWrite.mpr ⟨u, hu, .inl hfrom⟩)
        · cases hfrom
          exact h user (mem_toWrite.mpr ⟨t, hne, .inl hmem⟩)
      · exact h user' (mem_toWrite.mpr ⟨u, hu, .inr ⟨snap, hdue ▸ hsnap, hheard⟩⟩)
    · have hsum : (((s.handlers.set i (user, t')).map Prod.snd).map Prog.height).sum <
          ((s.handlers.map Prod.snd).map Prog.height).sum := by
        rw [List.map_set]
        have hget : (s.handlers.map Prod.snd)[i]? = some t := by simp [hi]
        exact Prog.sum_height_set_lt hget (Prog.height_next_lt (hstage.atMost hid) hnext)
      have hleft : ({ s.withDb db with handlers := s.handlers.set i (user, t') } : Echo).left =
          3 * s.due.length +
            (((s.handlers.set i (user, t')).map Prod.snd).map Prog.height).sum := by
        rw [← hdue]
        rfl
      rw [hleft, left]
      omega

/-- The first step of the echo is part of it. -/
theorem Settles.step (h : s.Settles) (hm : m.IsEcho) (hstep : step s m = some s') :
    s'.Settles ∧ s'.doc = s.doc := by
  obtain ⟨n, hn⟩ := h
  have hfirst : ∀ ms t, Events.replay Echo.step Events.free s' ms = some t →
      Events.replay Echo.step Events.free s (m :: ms) = some t :=
    fun ms t ht => Events.replay_cons_eq_some.mpr ⟨rfl, s', hstep, ht⟩
  have hsame : s'.doc = s.doc := (hn [m] s' (by simpa using hm) (hfirst [] s' rfl)).1
  refine ⟨⟨n, fun ms t hms ht => ?_⟩, hsame⟩
  obtain ⟨hdoc, hlen⟩ := hn (m :: ms) t (List.forall_mem_cons.mpr ⟨hm, hms⟩) (hfirst ms t ht)
  simp only [List.length_cons] at hlen
  exact ⟨hdoc.trans hsame.symm, by omega⟩

theorem Agrees.settles (h : s.Agrees) (hstaged : s.Staged) : s.Settles := by
  refine ⟨s.left, fun ms => ?_⟩
  induction ms generalizing s with
  | nil =>
    intro t _ ht
    cases ht
    exact ⟨rfl, Nat.zero_le _⟩
  | cons m ms ih =>
    intro t hms ht
    obtain ⟨hm, hms⟩ := List.forall_mem_cons.mp hms
    obtain ⟨-, s', hstep, hrest⟩ := Events.replay_cons_eq_some.mp ht
    obtain ⟨hagrees, hdoc, hlt⟩ := h.step hstaged hm hstep
    obtain ⟨hend, hlen⟩ := ih hagrees (hstaged.step hstep) t hms hrest
    refine ⟨hend.trans hdoc, ?_⟩
    simp only [List.length_cons]
    omega

/-- A handler that has its second write to make is about to make it. -/
theorem Settles.second (h : s.Settles) {i : Nat} {user : User} (hid : user.id = some s.userId)
    (hi : s.handlers[i]? = some (user, DatabaseRepository.updateUser user)) :
    agrees user s.doc = true := by
  refine agrees_iff.mpr fun d hd => ?_
  obtain ⟨db, t', hnext, hwritten⟩ := next_second hid hd
  have hdoc := (h.step (m := .advance i {}) trivial (step_advance hi hnext)).2
  rw [hd] at hdoc
  exact Option.some.inj (hwritten.symm.trans hdoc)

/-- So is one that has both. -/
theorem Settles.handler (h : s.Settles) {i : Nat} {user : User} {t : App Unit}
    (hid : user.id = some s.userId) (hstage : Stage user t) (hne : ¬ t.Ended)
    (hi : s.handlers[i]? = some (user, t)) : agrees user s.doc = true := by
  cases hstage with
  | both =>
    rcases onboarding_updateUser_cases hid with hended | hsame | ⟨userName, fs, hboth⟩
    · exact absurd hended hne
    · exact h.second hid (hsame ▸ hi)
    · have hlt := (List.getElem?_eq_some_iff.mp hi).1
      rw [hboth] at hi
      obtain ⟨hsettles, hdoc⟩ :=
        h.step (m := .advance i {}) trivial (step_advance hi next_first)
      rw [← hdoc]
      exact hsettles.second hid (List.getElem?_set_self hlt)
  | second => exact h.second hid hi
  | done hended => exact absurd hended hne

/-- A snapshot that is due may be handed over first, and its handler runs. -/
theorem Settles.agrees (h : s.Settles) (hstaged : s.Staged) : s.Agrees := by
  intro user huser
  obtain ⟨t, hne, hmem⟩ := mem_toWrite.mp huser
  rcases hmem with hmem | ⟨snap, hsnap, hheard⟩
  · obtain ⟨hid, hstage⟩ := hstaged _ hmem
    obtain ⟨i, hi⟩ := List.mem_iff_getElem?.mp hmem
    exact h.handler hid hstage hne hi
  · obtain ⟨j, hj⟩ := List.mem_iff_getElem?.mp hsnap
    have hstep : Echo.step s (.deliver j) = some { s with
        due := s.due.eraseIdx j, handlers := s.handlers ++ [(user, t)] } := by
      simp [Echo.step, deliver, hj, hheard]
    obtain ⟨hsettles, hdoc⟩ := h.step (m := .deliver j) trivial hstep
    obtain ⟨hid, hstart⟩ := heard_eq_some hheard
    have hstage : Stage user t := by
      rw [show t = OnboardingBloc.updateUser user from hstart]
      exact .both
    rw [← hdoc]
    exact hsettles.handler hid hstage hne (List.getElem?_concat_length)

theorem settles_iff_agrees (hstaged : s.Staged) : s.Settles ↔ s.Agrees :=
  ⟨fun h => h.agrees hstaged, fun h => h.settles hstaged⟩

/-- At first no handler runs. -/
theorem staged_opened {π : Req Path Listener → Outcome} {putFile : Except Err Unit}
    {downloadUrl : Except Err String} {user : User} {st : AppState}
    (h : opened π putFile downloadUrl user st = some s) : s.Staged := by
  unfold opened at h
  split at h
  · cases h
    intro p hp
    cases hp
  · cases h

/-- A step of the echo keeps `Settles`; an outside change keeps it just when
it keeps the fields. -/
theorem settles_step_iff (hstaged : s.Staged) (h : s.Settles) (hstep : step s m = some s') :
    s'.Settles ↔ keepsFields s m = true := by
  cases m with
  | change w =>
    have hchange : s.change w = some s' := hstep
    rw [settles_iff_agrees (hstaged.step hstep)]
    simp [keepsFields, hchange]
  | deliver j => exact iff_of_true (h.step (m := .deliver j) trivial hstep).1 rfl
  | advance i o => exact iff_of_true (h.step (m := .advance i o) trivial hstep).1 rfl

/-! ## The echo settles -/

/-- In every state of a run the echo settles, just when it does at first and
every outside change keeps the fields of all that is still to be written. -/
theorem echoes_settle_iff (π : Req Path Listener → Outcome) (putFile : Except Err Unit)
    (downloadUrl : Except Err String) (user : User) (st : AppState) (s₀ : Echo)
    (hopened : opened π putFile downloadUrl user st = some s₀) (ms : List Move)
    (h : (Events.replay step Events.free s₀ ms).isSome) :
    (∀ k s, Events.replay step Events.free s₀ (ms.take k) = some s → s.Settles) ↔
      s₀.Agrees ∧ (Events.replay step keepsFields s₀ ms).isSome := by
  have hstaged := staged_opened hopened
  by_cases hagrees : s₀.Agrees
  · have hkept : (∀ k s, Events.replay step Events.free s₀ (ms.take k) = some s → s.Settles) ↔
        (Events.replay step keepsFields s₀ ms).isSome := by
      apply Events.replay_promise_iff (J := Staged) hstaged (hagrees.settles hstaged) _ h
      intro s m s' hs hsettles hstep
      exact ⟨hs.step hstep, settles_step_iff hs hsettles hstep⟩
    simpa [hagrees] using hkept
  · refine iff_of_false (fun hall => ?_) fun hand => hagrees hand.1
    exact hagrees ((hall 0 s₀ rfl).agrees hstaged)

/-- `ada` is in the database, and has a name. -/
def adaDb : AppState :=
  { store := Store.ofList [(.users "ada", Doc.ofList (User.toDocument
      { id := some "ada", userName := some "ada", name := some "Ada", email := none,
        profilePicture := some "", placeListIds := some [] }))] }

/-- Her picture is uploaded. -/
def adaOpened : Option Echo :=
  opened (fun _ => {}) (.ok ()) (.ok "picture") { id := some "ada" } adaDb

/-- A list is shared with her. -/
def shared : Write Path := .update (.users "ada") [("placeListIds", .arrayUnion [.str "rome"])]

/-- The list comes after the picture has been echoed. -/
def quietMoves : List Move :=
  [.deliver 0, .advance 0 {}, .advance 0 {}, .change shared, .deliver 0, .advance 1 {}]

theorem echoes_settle_ada :
    ∃ s₀ s, adaOpened = some s₀ ∧ Events.replay step Events.free s₀ quietMoves = some s ∧
      s.Settles := by
  have hopened : adaOpened.any (fun s₀ => s₀.Agrees ∧
      (Events.replay step keepsFields s₀ quietMoves).isSome ∧
      (Events.replay step Events.free s₀ quietMoves).isSome) = true := by decide
  obtain ⟨s₀, hs₀, hends⟩ := (Option.any_eq_true _ _).mp hopened
  obtain ⟨hagrees, hkept, hrun⟩ := of_decide_eq_true hends
  obtain ⟨s, hs⟩ := Option.isSome_iff_exists.mp hrun
  refine ⟨s₀, s, hs₀, hs, ?_⟩
  exact (echoes_settle_iff _ _ _ _ _ s₀ hs₀ quietMoves hrun).mpr ⟨hagrees, hkept⟩
    quietMoves.length s (by rw [List.take_length]; exact hs)

/-- The list comes while the first snapshot is being echoed. -/
def overtaken : List Move := [.deliver 0, .change shared]

theorem echo_overwrites :
    ¬ ∀ (π : Req Path Listener → Outcome) (putFile : Except Err Unit)
      (downloadUrl : Except Err String) (user : User) (st : AppState) (s₀ : Echo),
      opened π putFile downloadUrl user st = some s₀ → ∀ (ms : List Move) (s : Echo),
      Events.replay step Events.free s₀ ms = some s → s.Settles := by
  intro hclaim
  have hrun : adaOpened.any (fun s₀ =>
      (Events.replay step Events.free s₀ overtaken).any fun s =>
        (Events.replay step Events.free s [.advance 0 {}, .advance 0 {}]).any fun s' =>
          s'.doc ≠ s.doc) = true := by decide
  obtain ⟨s₀, hs₀, hends⟩ := (Option.any_eq_true _ _).mp hrun
  obtain ⟨s, hs, hends⟩ := (Option.any_eq_true _ _).mp hends
  obtain ⟨s', hs', hlost⟩ := (Option.any_eq_true _ _).mp hends
  obtain ⟨n, hn⟩ := hclaim _ _ _ _ _ s₀ hs₀ overtaken s hs
  exact of_decide_eq_true hlost (hn _ s' (by simp [Move.IsEcho]) hs').1

end Echo

end GottaGo
