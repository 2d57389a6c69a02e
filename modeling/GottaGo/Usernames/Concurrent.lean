/-
GottaGo.Usernames.Concurrent — claiming user names from several clients.

A flow looks whether a name is free, and if it is, registers it and
writes the user's document; in the settings it deregisters the old name
first. The look and the writes are separate requests, and neither
registering nor deregistering looks again.

`undisturbed` is what a flow takes for granted at each of its writes: the
entry it writes or removes is free or its user's, and the name it puts in
the user's document is registered to the user. In a run in which that is
so at every write, names are unique once no flow is in flight
(`usernames_unique`). `usernames_race` is a run in which two flows see
the same name free.
-/
import GottaGo.Bloc.Handlers
import GottaGo.Usernames.Directory

namespace GottaGo

open GottaGo.Async GottaGo.Async.Pool GottaGo.Firestore DatabaseRepository

/-! ## Flows -/

/-- A call made for user `uid`. -/
structure Flow where
  uid : String
  call : App Unit

/-- The flows that claim a name: the button of the sign-up form and that
of the dialog that changes a name, for a user value that has the user's
id. -/
inductive FlowStart : AppState → AppState → Flow → Prop
  | setUsername (st : AppState) {uid : String} (user : User) (userName : String) :
      user.id = some uid → FlowStart st st ⟨uid, setUsername user userName⟩
  | changeUsername (st : AppState) {uid : String} (user : User) (userName : String) :
      user.id = some uid → FlowStart st st ⟨uid, changeUsername user userName⟩

/-- The entry of name `n` is free, or it is that of user `u`. -/
def EntryFree (s : Store Path) (n u : String) : Prop :=
  s.get (.usernames n) = none ∨ Registered s n u

instance (s : Store Path) (n u : String) : Decidable (EntryFree s n u) :=
  inferInstanceAs (Decidable (_ ∨ _))

/-- The request of a flow of user `u` finds what the flow relies on. -/
def undisturbed (u : String) (st : AppState) : Req Path Listener → Bool
  | .write (.set (.usernames n) _) => decide (EntryFree st.store n u)
  | .write (.delete (.usernames n)) => decide (EntryFree st.store n u)
  | .write (.update (.users v) fs) =>
    match fs.lookup "userName" with
    | some (.put (.str n)) => decide (n = "" ∨ Registered st.store n v)
    | _ => true
  | _ => true

/-- A step of a flow when nothing fails. -/
def FlowStep (st : AppState) (f : Flow) (st' : AppState) (f' : Flow) : Prop :=
  f'.uid = f.uid ∧ Prog.Step Served st f.call st' f'.call

/-- A step of a flow when nothing fails and nobody has come between. -/
def UndisturbedStep (st : AppState) (f : Flow) (st' : AppState) (f' : Flow) : Prop :=
  f'.uid = f.uid ∧
    Prog.Step (fun q st r st' => Served q st r st' ∧ undisturbed f.uid st q = true)
      st f.call st' f'.call

/-! ## Control points -/

/-- Where a flow stands. `busy` says that it has deregistered a name. -/
inductive FlowPoint where
  | set (uid n : String) (user : User) (h : user.id = some uid)
  | change (uid n : String) (user : User) (h : user.id = some uid)
  | deregister (uid m n : String) (user : User) (h : user.id = some uid)
  | register (busy : Bool) (uid n : String) (user : User) (h : user.id = some uid)
      (hn : user.userName = some n)
  | update (busy : Bool) (uid n : String) (user : User) (h : user.id = some uid)
      (hn : user.userName = some n)
  | ended (uid : String) (r : Except Err Unit)

namespace FlowPoint

def uid : FlowPoint → String
  | .set uid .. | .change uid .. | .deregister uid .. | .register _ uid ..
  | .update _ uid .. | .ended uid _ => uid

/-- What is left of the call. -/
def call : FlowPoint → App Unit
  | .set _ n user _ => setUsername user n
  | .change _ n user _ => changeUsername user n
  | .deregister uid m n user _ =>
    (deregisterUsername m).bind fun _ => (registerUsername n uid).bind fun _ =>
      updateUser (user.copyWith { userName := some n })
  | .register _ uid n user _ _ =>
    (registerUsername n uid).bind fun _ => updateUser user
  | .update _ _ _ user _ _ => updateUser user
  | .ended _ r => .ofExcept r

def flow (p : FlowPoint) : Flow := ⟨p.uid, p.call⟩

/-- The user of a flow that has deregistered a name and not written the
user yet. -/
def busy? : FlowPoint → Option String
  | .register true uid .. => some uid
  | .update true uid .. => some uid
  | _ => none

end FlowPoint

/-- The users with a busy flow. -/
def Busy (ps : List FlowPoint) (u : String) : Prop := ∃ p ∈ ps, p.busy? = some u

/-- A move between control points that keeps the directory sound for
everybody but the busy. -/
def KeepsSound (st : AppState) (p : FlowPoint) (st' : AppState) (p' : FlowPoint) : Prop :=
  ∀ busy : String → Prop, SoundBut (fun v => busy v ∨ p.busy? = some v) st.store →
    SoundBut (fun v => busy v ∨ p'.busy? = some v) st'.store

theorem KeepsSound.of_store {st st' : AppState} {p p' : FlowPoint}
    (hs : st'.store = st.store) (hp : p.busy? = none) : KeepsSound st p st' p' := by
  intro busy h
  rw [hs]
  refine h.mono fun v hv => ?_
  rw [hp] at hv
  simpa using hv.imp_right fun hn => by cases hn

/-- After the look: the flow goes on, or there is nothing to do. -/
theorem step_checked {st st' : AppState} {n : String} {t t' : App Unit}
    {u : String}
    (h : Prog.Step (fun q st r st' => Served q st r st' ∧ undisturbed u st q = true) st
      ((checkUsernameAvailability n).bind fun available =>
        if available = true then t else .ret ()) st' t') :
    st' = st ∧ (t' = t ∨ t' = .ret ()) := by
  obtain ⟨r, ⟨hr, -⟩, rfl⟩ := h
  obtain ⟨rfl, rfl⟩ := served_get.mp hr
  refine ⟨rfl, ?_⟩
  cases hn : (st'.store.get (.usernames n)).isNone with
  | true =>
    left
    simp only [Prog.ofExcept, Prog.bind, hn]
    rfl
  | false =>
    right
    simp only [Prog.ofExcept, Prog.bind, hn]
    rfl

/-- Every undisturbed step of a flow keeps the directory sound. -/
theorem FlowPoint.keepsSound {st st' : AppState} {p : FlowPoint} {f' : Flow}
    (h : UndisturbedStep st p.flow st' f') :
    ∃ p' : FlowPoint, f' = p'.flow ∧ KeepsSound st p st' p' := by
  obtain ⟨u', t'⟩ := f'
  obtain ⟨huid, h⟩ := h
  cases huid
  cases p with
  | set uid n user hid =>
    have hid' : (user.copyWith { userName := some n }).id = some uid := hid
    obtain ⟨rfl, rfl | rfl⟩ := step_checked h
    · by_cases hn : n = ""
      · refine ⟨.update false uid n _ hid' rfl, ?_, .of_store rfl rfl⟩
        subst hn
        rfl
      · refine ⟨.register false uid n _ hid' rfl, ?_, .of_store rfl rfl⟩
        have hne : (user.copyWith { userName := some n }).userName ≠ some "" := by
          simpa [User.copyWith] using hn
        simp only [flow, FlowPoint.uid, call, OnboardingBloc.updateUser, if_pos hne, hid']
        rfl
    · exact ⟨.ended uid (.ok ()), rfl, .of_store rfl rfl⟩
  | change uid n user hid =>
    obtain ⟨rfl, rfl | rfl⟩ := step_checked h
    · cases hm : user.userName with
      | none =>
        refine ⟨.ended uid (.error .typeError), ?_, .of_store rfl rfl⟩
        simp only [flow, FlowPoint.uid, call, SettingsBloc.updateUsername, hm]
        rfl
      | some m =>
        refine ⟨.deregister uid m n user hid, ?_, .of_store rfl rfl⟩
        simp only [flow, FlowPoint.uid, call, SettingsBloc.updateUsername, hm, hid]
        rfl
    · exact ⟨.ended uid (.ok ()), rfl, .of_store rfl rfl⟩
  | deregister uid m n user hid =>
    have hid' : (user.copyWith { userName := some n }).id = some uid := hid
    obtain ⟨r, ⟨hr, hund⟩, rfl⟩ := h
    obtain ⟨s', hs', rfl, rfl⟩ := served_write.mp hr
    cases hs'
    have hfree : EntryFree st.store m uid := of_decide_eq_true hund
    refine ⟨.register true uid n _ hid' rfl, rfl, fun busy hsound => ?_⟩
    refine (hsound.deregister hfree).mono fun v hv => ?_
    rcases hv with (hb | hb) | rfl
    · exact .inl hb
    · cases hb
    · exact .inr rfl
  | register b uid n user hid hn =>
    obtain ⟨r, ⟨hr, hund⟩, rfl⟩ := h
    obtain ⟨s', hs', rfl, rfl⟩ := served_write.mp hr
    cases hs'
    have hfree : EntryFree st.store n uid := of_decide_eq_true hund
    refine ⟨.update b uid n user hid hn, rfl, fun busy hsound => ?_⟩
    refine (hsound.register hfree).mono fun v hv => ?_
    cases b <;> exact hv
  | update b uid n user hid hn =>
    obtain ⟨id, userName, _, _, _, _⟩ := user
    cases hid
    cases hn
    obtain ⟨r, ⟨hr, hund⟩, rfl⟩ := h
    obtain ⟨s', hs', rfl, rfl⟩ := served_write.mp hr
    have hreg : n = "" ∨ Registered st.store n uid := of_decide_eq_true hund
    refine ⟨.ended uid (.ok ()), rfl, fun busy hsound => ?_⟩
    have hdone := hsound.userWrite hs' rfl fun k hk => by
      have hname := (hasName_updateWrite hs' k).mp hk
      cases hname.1
      exact hreg.resolve_left hname.2
    refine hdone.mono fun v hv => ?_
    rcases hv.1 with hb | hb
    · exact .inl hb
    · refine absurd ?_ hv.2
      cases b <;> cases hb
      rfl
  | ended uid r =>
    cases r <;> exact h.elim

/-! ## Runs -/

theorem FlowStart.point {st st' : AppState} {f : Flow} (h : FlowStart st st' f) :
    ∃ p : FlowPoint, f = p.flow ∧ st' = st ∧ p.busy? = none := by
  cases h with
  | setUsername user n hid => exact ⟨.set _ n user hid, rfl, rfl, rfl⟩
  | changeUsername user n hid => exact ⟨.change _ n user hid, rfl, rfl, rfl⟩

theorem busy_append_cons (pre post : List FlowPoint) (p : FlowPoint) (u : String) :
    Busy (pre ++ p :: post) u ↔ Busy (pre ++ post) u ∨ p.busy? = some u := by
  unfold Busy
  simp only [List.mem_append, List.mem_cons]
  constructor
  · intro h
    obtain ⟨q, hq | rfl | hq, hb⟩ := h
    · exact .inl ⟨q, .inl hq, hb⟩
    · exact .inr hb
    · exact .inl ⟨q, .inr hq, hb⟩
  · intro h
    rcases h with ⟨q, hq, hb⟩ | hb
    · exact ⟨q, hq.imp_right .inr, hb⟩
    · exact ⟨p, .inr (.inl rfl), hb⟩

/-- A flow that has ended is not busy. -/
theorem FlowPoint.not_busy {p : FlowPoint} (h : p.call.Ended) : p.busy? = none := by
  cases p with
  | update b uid n user hid hn =>
    obtain ⟨_, _, _, _, _, _⟩ := user
    cases hid
    exact h.elim
  | register b uid n user hid hn => exact h.elim
  | _ => rfl

/-- In a run whose flows find at each of their writes what they rely on,
no two users have the same name once no flow is in flight. -/
theorem usernames_unique {s : Store Path} {c : Pool AppState Flow} (h : Directory s)
    (hrun : Run FlowStart UndisturbedStep ⟨{ store := s }, []⟩ c)
    (hq : ∀ f ∈ c.threads, f.call.Ended) :
    ∀ u v n, HasName c.state.store u n → HasName c.state.store v n → u = v := by
  have hrefines : ∃ ps : List FlowPoint, c.threads = ps.map FlowPoint.flow ∧
      Run (fun st st' p => st' = st ∧ p.busy? = none) KeepsSound
        ⟨{ store := s }, []⟩ ⟨c.state, ps⟩ := by
    refine Reach.refines FlowPoint.flow ?_ ?_ (fun _ _ _ => trivial) hrun
    · intro st st' f hf
      exact hf.point
    · intro st p st' f' hf
      exact p.keepsSound hf
  obtain ⟨ps, hps, hpoints⟩ := hrefines
  have hsound : SoundBut (Busy ps) c.state.store := by
    refine hpoints.invariant (J := fun d => SoundBut (Busy d.threads) d.state.store) ?_ ?_
    · exact (soundBut_none.mpr h).mono fun _ hv => hv.elim
    · intro d d' hd hs _
      cases hs with
      | start qs hp =>
        obtain ⟨rfl, -⟩ := hp
        refine hd.mono fun v hv => ?_
        obtain ⟨q, hq, hb⟩ := hv
        exact ⟨q, List.mem_cons_of_mem _ hq, hb⟩
      | adv pre post hp =>
        have hbut := hd.mono fun v hv => (busy_append_cons pre post _ v).mp hv
        exact (hp (Busy (pre ++ post)) hbut).mono fun v hv =>
          (busy_append_cons pre post _ v).mpr hv
  have hdir : Directory c.state.store := by
    refine soundBut_none.mp (hsound.mono fun v hv => ?_)
    obtain ⟨p, hp, hb⟩ := hv
    have hended : p.call.Ended := hq p.flow (hps ▸ List.mem_map_of_mem hp)
    rw [p.not_busy hended] at hb
    cases hb
  intro u v n hu hv
  exact hdir.unique hu hv

/-- The next step of a flow when nothing fails. -/
def nextFlow (o : Outcome) (st : AppState) (f : Flow) : Option (AppState × Flow) :=
  (nextServed o st f.call).map fun r => (r.1, ⟨f.uid, r.2⟩)

theorem step_of_nextFlow (o : Outcome) (st : AppState) (f : Flow) (st' : AppState)
    (f' : Flow) (h : nextFlow o st f = some (st', f')) : FlowStep st f st' f' := by
  obtain ⟨r, hr, heq⟩ := Option.map_eq_some_iff.mp h
  cases heq
  exact ⟨rfl, step_of_nextServed _ _ _ _ _ hr⟩

/-- The next step of a flow that finds what it relies on. -/
def nextUndisturbed (o : Outcome) (st : AppState) (f : Flow) :
    Option (AppState × Flow) :=
  (Prog.next serve (fun o q st => serves o q st && undisturbed f.uid st q) o st
    f.call).map fun r => (r.1, ⟨f.uid, r.2⟩)

theorem step_of_nextUndisturbed (o : Outcome) (st : AppState) (f : Flow)
    (st' : AppState) (f' : Flow) (h : nextUndisturbed o st f = some (st', f')) :
    UndisturbedStep st f st' f' := by
  obtain ⟨r, hr, heq⟩ := Option.map_eq_some_iff.mp h
  cases heq
  refine ⟨rfl, Prog.step_of_next (fun o q st hadm => ?_) hr⟩
  rw [Bool.and_eq_true] at hadm
  exact ⟨served_of_serves o q st hadm.1, hadm.2⟩

/-- Two users who have signed up and have no name yet. -/
def signedUp : Store Path :=
  .ofList [(.users "ada", Doc.ofList (signUpUser "ada" "Ada" none).toDocument),
    (.users "bob", Doc.ofList (signUpUser "bob" "Bob" none).toDocument)]

theorem directory_signedUp : Directory signedUp := by
  intro u n hn
  have hempty : ∀ uid name email, (Doc.ofList (signUpUser uid name email).toDocument).get?
      "userName" = some (.str "") := by
    intro uid name email
    rw [Doc.get?_ofList]
    rfl
  unfold HasName signedUp Store.field at hn
  by_cases hada : u = "ada"
  · simp [hada, Store.get_ofList_cons, hempty, eq_comm] at hn
  · by_cases hbob : u = "bob"
    · simp [hbob, Store.get_ofList_cons, hempty, eq_comm] at hn
    · simp [hada, hbob, Store.get_ofList_cons] at hn

/-- The two choose different names at the same time. -/
theorem usernames_unique_two : ∃ c : Pool AppState Flow,
    HasName c.state.store "ada" "lovelace" ∧ HasName c.state.store "bob" "builder" ∧
      ∀ v, HasName c.state.store v "lovelace" → v = "ada" := by
  have hplay : ∃ c : Pool AppState Flow,
      Run FlowStart UndisturbedStep ⟨{ store := signedUp }, []⟩ c ∧
        HasName c.state.store "ada" "lovelace" ∧ HasName c.state.store "bob" "builder" ∧
          ∀ f ∈ c.threads, f.call.Ended := by
    refine Reach.exists_play
      [⟨"ada", setUsername (signUpUser "ada" "Ada" none) "lovelace"⟩,
        ⟨"bob", setUsername (signUpUser "bob" "Bob" none) "builder"⟩]
      [(0, {}), (1, {}), (0, {}), (1, {}), (1, {}), (0, {})]
      (fun _ => true) step_of_nextUndisturbed (fun _ _ => trivial) ?_
      (fun _ _ => trivial) (by decide)
    intro f hf
    simp only [List.mem_cons, List.not_mem_nil, or_false] at hf
    rcases hf with rfl | rfl <;> exact .setUsername _ _ _ rfl
  obtain ⟨c, hrun, hada, hbob, hq⟩ := hplay
  refine ⟨c, hada, hbob, fun v hv => ?_⟩
  exact usernames_unique directory_signedUp hrun hq v "ada" "lovelace" hv hada

/-- Both see the same name free, and both take it. -/
theorem usernames_race :
    ¬ ∀ (s : Store Path) (c : Pool AppState Flow), Directory s →
      Run FlowStart FlowStep ⟨{ store := s }, []⟩ c →
      (∀ f ∈ c.threads, f.call.Ended) →
      ∀ u v n, HasName c.state.store u n → HasName c.state.store v n → u = v := by
  intro h
  have hplay : ∃ c : Pool AppState Flow,
      Run FlowStart FlowStep ⟨{ store := signedUp }, []⟩ c ∧
        HasName c.state.store "ada" "neo" ∧ HasName c.state.store "bob" "neo" ∧
          ∀ f ∈ c.threads, f.call.Ended := by
    refine Reach.exists_play
      [⟨"ada", setUsername (signUpUser "ada" "Ada" none) "neo"⟩,
        ⟨"bob", setUsername (signUpUser "bob" "Bob" none) "neo"⟩]
      [(0, {}), (1, {}), (0, {}), (1, {}), (0, {}), (1, {})]
      (fun _ => true) step_of_nextFlow (fun _ _ => trivial) ?_ (fun _ _ => trivial)
      (by decide)
    intro f hf
    simp only [List.mem_cons, List.not_mem_nil, or_false] at hf
    rcases hf with rfl | rfl <;> exact .setUsername _ _ _ rfl
  obtain ⟨c, hrun, hada, hbob, hq⟩ := hplay
  have heq := h signedUp c directory_signedUp hrun hq "ada" "bob" "neo" hada hbob
  exact absurd heq (by decide)

end GottaGo
