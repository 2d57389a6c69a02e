/-
GottaGo.Session.Follows — the session follows the last auth change.

What `AuthBloc` ends up with is what the handler that emits last says, and
nothing keeps that from being a handler of an older auth change: the
plugin may answer it later, the call of the newer one may throw before it
emits, and the listener of a user who is gone may still get a snapshot.
`session_follows`: the session follows in the runs in which handlers end
in the order of the auth changes, the last handler of a change does not
throw, only listeners of the user who is signed in get snapshots, and
nobody signs in over a user who has come.

`Ordered` is the invariant: the handlers of the last event that was added
are still running, or they have ended and the state is theirs.
-/
import GottaGo.Async.Events
import GottaGo.Bloc.Auth
import GottaGo.Membership.Agreement

namespace GottaGo.AuthBloc

open GottaGo.Async GottaGo.Firestore

/-- The account that is signed in after the last auth change. -/
def signedIn (bloc : AuthBloc) : Option String :=
  bloc.changes.getLast?.join.map AuthUser.uid

/-- The last auth change is a sign-in of `uid` whose document has come. -/
def Delivered (bloc : AuthBloc) (uid : String) : Prop :=
  bloc.signedIn = some uid ∧
    ∃ a ∈ bloc.added, a.1 = bloc.changes.length ∧ a.2.account = some uid

/-- The bloc is authenticated as the user of the last auth change, if that
was a sign-in whose document has come, and not authenticated otherwise. -/
def FollowsLast (bloc : AuthBloc) : Prop :=
  ∀ uid, bloc.state.account = some uid ↔ bloc.Delivered uid

/-- No handler of an earlier auth change is running. -/
def isNext (bloc : AuthBloc) (h : AuthHandler) : Bool :=
  bloc.running.all fun h' => h.change ≤ h'.change

/-- Another handler of the same auth change is running or has emitted, or
there is no session that a sign-out would have to end. -/
def maySkip (bloc : AuthBloc) (k : Nat) (h : AuthHandler) : Bool :=
  (bloc.running.eraseIdx k).any (fun h' => h'.change = h.change) ||
    h.change ∈ bloc.emitted || h.event.account.isNone && bloc.state.account.isNone

/-- The promise of a run whose session follows. -/
def keepsOrder (bloc : AuthBloc) : Event → Bool
  | .user (some _) => (bloc.added.getLast?.bind fun a => a.2.account).isNone
  | .user none => true
  | .snapshot i _ =>
    bloc.listeners[i]?.all fun authUser => bloc.signedIn = some authUser.uid
  | .answer k revCat =>
    match bloc.running[k]? with
    | some h =>
      match h.rest.answer? revCat with
      | some (.ret _) => bloc.isNext h
      | some (.raise _) => bloc.isNext h && bloc.maySkip k h
      | _ => true
    | none => true

/-! ## The invariant -/

/-- `last` is the last event that was added, with its number. -/
structure OrderedAt (bloc : AuthBloc) (last : Option (Nat × AuthUserChanged)) : Prop where
  added : ∀ a ∈ bloc.added, ∃ b ∈ last, a.1 ≤ b.1
  bound : ∀ b ∈ last, b.1 ≤ bloc.changes.length
  running : ∀ h ∈ bloc.running, ∃ b ∈ last, h.change ≤ b.1 ∧
    (h.change = b.1 → h.event.account = b.2.account)
  emitted : ∀ n ∈ bloc.emitted, ∃ b ∈ last, n ≤ b.1
  latest : bloc.running = [] ∨ ∃ b ∈ last, ∃ h ∈ bloc.running, h.change = b.1
  done : ∀ b ∈ last, b.1 ∈ bloc.emitted →
    bloc.state.account = b.2.account ∧ ∀ h ∈ bloc.running, h.change = b.1
  settled : bloc.running = [] → bloc.state.account = last.bind fun b => b.2.account
  current : ∀ b ∈ last, b.1 = bloc.changes.length → b.2.account = bloc.signedIn
  waiting : ∀ b ∈ last, b.1 < bloc.changes.length → b.2.account = none

/-- The invariant of the runs that keep the promise. -/
def Ordered (bloc : AuthBloc) : Prop := bloc.OrderedAt bloc.added.getLast?

variable {bloc bloc' : AuthBloc}

theorem ordered_empty : Ordered {} where
  added := by simp
  bound := by simp
  running := by simp
  emitted := by simp
  latest := by simp
  done := by simp
  settled := by simp [AuthState.account]
  current := by simp
  waiting := by simp

/-- An event is added, after the auth changes have become `changes`. -/
theorem Ordered.add (h : Ordered bloc) {changes : List (Option AuthUser)}
    {event : AuthUserChanged} (hle : bloc.changes.length ≤ changes.length)
    (hevent : event.account = changes.getLast?.join.map AuthUser.uid)
    (hsame : ∀ b ∈ bloc.added.getLast?, b.1 = changes.length → event.account = b.2.account) :
    Ordered ({ bloc with changes := changes }.add event) := by
  have hlast : ({ bloc with changes := changes }.add event).added.getLast? =
      some (changes.length, event) := List.getLast?_concat
  show OrderedAt _ _
  rw [hlast]
  have hold : ∀ {n : Nat}, (∃ b ∈ bloc.added.getLast?, n ≤ b.1) → n ≤ changes.length := by
    intro n hn
    obtain ⟨b, hb, hn⟩ := hn
    exact (hn.trans (h.bound b hb)).trans hle
  refine ⟨?_, ?_, ?_, ?_, ?_, ?_, ?_, ?_, ?_⟩
  · intro a ha
    refine ⟨_, rfl, ?_⟩
    rcases List.mem_append.mp ha with ha | ha
    · exact hold (h.added a ha)
    · rw [List.mem_singleton.mp ha]
  · intro b hb
    cases hb
    exact le_rfl
  · intro x hx
    refine ⟨_, rfl, ?_⟩
    rcases List.mem_append.mp hx with hx | hx
    · obtain ⟨b, hb, hxb, haccount⟩ := h.running x hx
      refine ⟨hold ⟨b, hb, hxb⟩, fun heq => ?_⟩
      have hb' := h.bound b hb
      dsimp only at heq
      have hbx : b.1 = changes.length := by omega
      rw [haccount (by omega), hsame b hb hbx]
    · rw [List.mem_singleton] at hx
      subst hx
      exact ⟨le_rfl, fun _ => rfl⟩
  · intro n hn
    exact ⟨_, rfl, hold (h.emitted n hn)⟩
  · exact .inr ⟨_, rfl, _, List.mem_append_right _ (List.mem_singleton_self _), rfl⟩
  · intro b hb hn
    cases hb
    obtain ⟨b, hb, hnb⟩ := h.emitted _ hn
    have hb' := h.bound b hb
    dsimp only at hn hnb
    have hbx : b.1 = changes.length := by omega
    obtain ⟨hstate, hall⟩ := h.done b hb (hbx ▸ hn)
    refine ⟨by rw [hsame b hb hbx]; exact hstate, ?_⟩
    intro x hx
    rcases List.mem_append.mp hx with hx | hx
    · rw [hall x hx, hbx]
    · rw [List.mem_singleton.mp hx]
  · intro hnil
    exact absurd hnil (by simp [AuthBloc.add])
  · intro b hb _
    cases hb
    exact hevent
  · intro b hb hlt
    cases hb
    exact absurd hlt (Nat.lt_irrefl _)

/-- While a handler runs that is not of the last event, so does one that
is. -/
theorem Ordered.exists_later (h : Ordered bloc) {k : Nat} {x : AuthHandler}
    (hx : bloc.running[k]? = some x) {b : Nat × AuthUserChanged}
    (hb : b ∈ bloc.added.getLast?) (hlt : x.change < b.1) :
    ∃ y ∈ bloc.running.eraseIdx k, y.change = b.1 := by
  rcases h.latest with hnil | ⟨b', hb', y, hy, hyb⟩
  · simp [hnil] at hx
  · cases hb.symm.trans hb'
    obtain ⟨j, hj⟩ := List.getElem?_of_mem hy
    refine ⟨y, List.mem_eraseIdx_iff_getElem?.mpr ⟨j, ?_, hj⟩, hyb⟩
    intro hjk
    rw [hjk, hx] at hj
    cases hj
    omega

/-- The last handler is of the last event. -/
theorem Ordered.last_of_alone (h : Ordered bloc) {k : Nat} {x : AuthHandler}
    (hx : bloc.running[k]? = some x) (halone : bloc.running.eraseIdx k = []) :
    ∃ b ∈ bloc.added.getLast?, x.change = b.1 ∧ x.event.account = b.2.account := by
  obtain ⟨b, hb, hxb, haccount⟩ := h.running x (List.mem_of_getElem? hx)
  rcases Nat.lt_or_eq_of_le hxb with hlt | heq
  · obtain ⟨y, hy, -⟩ := h.exists_later hx hb hlt
    simp [halone] at hy
  · exact ⟨b, hb, heq, haccount heq⟩

/-- A handler ends, and leaves `state` and `emitted`. -/
theorem Ordered.erase (h : Ordered bloc) {k : Nat} {x : AuthHandler}
    (hx : bloc.running[k]? = some x) (hnext : bloc.isNext x = true) {state : AuthState}
    {emitted : List Nat}
    (hemitted : ∀ n ∈ emitted, n ∈ bloc.emitted ∨
      n = x.change ∧ state.account = x.event.account)
    (hstate : state = bloc.state ∨ state.account = x.event.account)
    (hlast : bloc.running.eraseIdx k = [] → state.account = x.event.account) :
    Ordered { bloc with
      state := state
      emitted := emitted
      running := bloc.running.eraseIdx k } := by
  obtain ⟨b, hb, hxb, haccount⟩ := h.running x (List.mem_of_getElem? hx)
  have hold : ∀ y ∈ bloc.running.eraseIdx k, y ∈ bloc.running :=
    fun y hy => List.mem_of_mem_eraseIdx hy
  -- once a handler of the last event has ended, only such handlers run
  have hall : x.change = b.1 → ∀ y ∈ bloc.running.eraseIdx k, y.change = b.1 := by
    intro hxb' y hy
    obtain ⟨b', hb', hyb, -⟩ := h.running y (hold y hy)
    cases hb.symm.trans hb'
    have hxy := of_decide_eq_true (List.all_eq_true.mp hnext y (hold y hy))
    omega
  refine ⟨h.added, h.bound, fun y hy => h.running y (hold y hy), ?_, ?_, ?_, ?_, h.current,
    h.waiting⟩
  · intro n hn
    rcases hemitted n hn with hn | ⟨rfl, -⟩
    · exact h.emitted n hn
    · exact ⟨b, hb, hxb⟩
  · rcases Nat.lt_or_eq_of_le hxb with hlt | heq
    · exact .inr ⟨b, hb, h.exists_later hx hb hlt⟩
    · by_cases hnil : bloc.running.eraseIdx k = []
      · exact .inl hnil
      · obtain ⟨y, hy⟩ := List.exists_mem_of_ne_nil _ hnil
        exact .inr ⟨b, hb, y, hy, hall heq y hy⟩
  · intro b' hb' hn
    cases hb.symm.trans hb'
    rcases hemitted b.1 hn with hn | ⟨heq, hset⟩
    · obtain ⟨hdone, hrunning⟩ := h.done b hb hn
      have heq := hrunning x (List.mem_of_getElem? hx)
      refine ⟨?_, hall heq⟩
      rcases hstate with rfl | hset
      · exact hdone
      · exact hset.trans (haccount heq)
    · exact ⟨hset.trans (haccount heq.symm), hall heq.symm⟩
  · intro hnil
    obtain ⟨b', hb', -, haccount'⟩ := h.last_of_alone hx hnil
    cases hb.symm.trans hb'
    have hget : bloc.added.getLast? = some b := hb
    show state.account = bloc.added.getLast?.bind _
    rw [hget, hlast hnil, haccount']
    rfl

/-- A handler waits for the next answer. -/
theorem Ordered.set (h : Ordered bloc) {k : Nat} {x : AuthHandler}
    (hx : bloc.running[k]? = some x) (rest : RevCat AuthState) :
    Ordered { bloc with running := bloc.running.set k { x with rest := rest } } := by
  have hx' := List.mem_of_getElem? hx
  have hold : ∀ y ∈ bloc.running.set k { x with rest := rest }, ∃ z ∈ bloc.running,
      y.change = z.change ∧ y.event = z.event := by
    intro y hy
    rcases List.mem_or_eq_of_mem_set hy with hy | rfl
    · exact ⟨y, hy, rfl, rfl⟩
    · exact ⟨x, hx', rfl, rfl⟩
  refine ⟨h.added, h.bound, ?_, h.emitted, ?_, ?_, ?_, h.current, h.waiting⟩
  · intro y hy
    obtain ⟨z, hz, hchange, hevent⟩ := hold y hy
    rw [hchange, hevent]
    exact h.running z hz
  · rcases h.latest with hnil | ⟨b, hb, y, hy, hyb⟩
    · simp [hnil] at hx
    · refine .inr ⟨b, hb, ?_⟩
      obtain ⟨j, hj⟩ := List.getElem?_of_mem hy
      by_cases hjk : j = k
      · have hlt := (List.getElem?_eq_some_iff.mp hx).1
        rw [hjk, hx] at hj
        cases hj
        exact ⟨_, List.mem_of_getElem? (List.getElem?_set_self hlt), hyb⟩
      · refine ⟨y, List.mem_of_getElem? (i := j) ?_, hyb⟩
        rw [List.getElem?_set_ne (Ne.symm hjk), hj]
  · intro b hb hn
    obtain ⟨hstate, hall⟩ := h.done b hb hn
    refine ⟨hstate, fun y hy => ?_⟩
    obtain ⟨z, hz, hchange, -⟩ := hold y hy
    rw [hchange, hall z hz]
  · intro hnil
    have hlength := congrArg List.length (show bloc.running.set k _ = [] from hnil)
    rw [List.length_set] at hlength
    exact h.settled (List.length_eq_zero_iff.mp hlength)

/-! ## Every event keeps it -/

theorem Ordered.onUser (h : Ordered bloc) {authUser : Option AuthUser}
    (hok : keepsOrder bloc (.user authUser) = true) : Ordered (bloc.onUser authUser) := by
  cases authUser with
  | some authUser =>
    refine ⟨h.added, ?_, h.running, h.emitted, h.latest, h.done, h.settled, ?_, ?_⟩
    · intro b hb
      have hbound := h.bound b hb
      simp only [AuthBloc.onUser, List.length_append, List.length_singleton]
      omega
    · intro b hb hn
      have hbound := h.bound b hb
      simp only [AuthBloc.onUser, List.length_append, List.length_singleton] at hn
      omega
    · -- the last event is not that of a user who has come
      intro b hb _
      have hb' : bloc.added.getLast? = some b := hb
      simpa [keepsOrder, hb'] using hok
  | none =>
    apply h.add (by simp) (by simp [AuthUserChanged.account])
    intro b hb hn
    have hbound := h.bound b hb
    simp only [List.length_append, List.length_singleton] at hn
    omega

theorem Ordered.step (h : Ordered bloc) (hfaithful : Faithful bloc) {e : Event}
    (hok : keepsOrder bloc e = true) (hstep : AuthBloc.step bloc e = some bloc') :
    Ordered bloc' := by
  cases e with
  | user authUser =>
    cases hstep
    exact h.onUser hok
  | snapshot i snap =>
    obtain ⟨authUser, hi, rfl | ⟨user, rfl⟩⟩ := snapshot_cases hstep
    · exact h
    · have hin : bloc.signedIn = some authUser.uid := by simpa [keepsOrder, hi] using hok
      have haccount : AuthUserChanged.account { authUser := some authUser, user := some user } =
          bloc.signedIn := hin.symm
      apply h.add le_rfl haccount
      intro b hb hn
      rw [h.current b hb hn, hin]
      rfl
  | answer k revCat =>
    obtain ⟨x, rest, hx, hrest, rfl⟩ := answer_cases hstep
    have hreturns := (hfaithful x (List.mem_of_getElem? hx)).answer hrest
    simp only [keepsOrder, hx, hrest] at hok
    cases rest with
    | ret state =>
      apply h.erase hx hok
      · intro n hn
        rcases List.mem_append.mp hn with hn | hn
        · exact .inl hn
        · exact .inr ⟨List.mem_singleton.mp hn, hreturns⟩
      · exact .inr hreturns
      · exact fun _ => hreturns
    | raise e =>
      simp only [Bool.and_eq_true] at hok
      obtain ⟨hnext, hskip⟩ := hok
      apply h.erase hx hnext (fun n hn => .inl hn) (.inl rfl)
      intro hnil
      obtain ⟨b, hb, heq, haccount⟩ := h.last_of_alone hx hnil
      simp only [maySkip, hnil, List.any_nil, Bool.false_or, Bool.or_eq_true,
        decide_eq_true_eq, Bool.and_eq_true, Option.isNone_iff_eq_none] at hskip
      rcases hskip with hemitted | ⟨hnone, hstate⟩
      · rw [haccount]
        exact (h.done b hb (heq ▸ hemitted)).1
      · rw [hnone, hstate]
    | ask q kont => exact h.set hx _

/-- Without a handler running, the session follows. -/
theorem Ordered.follows (h : Ordered bloc) (hdone : bloc.running = []) :
    bloc.FollowsLast := by
  have hsettled := h.settled hdone
  intro uid
  constructor
  · intro hstate
    rw [hsettled, Option.bind_eq_some_iff] at hstate
    obtain ⟨b, hb, haccount⟩ := hstate
    have hn : b.1 = bloc.changes.length := by
      rcases Nat.lt_or_eq_of_le (h.bound b hb) with hlt | heq
      · rw [h.waiting b hb hlt] at haccount
        cases haccount
      · exact heq
    exact ⟨(h.current b hb hn).symm.trans haccount, b, List.mem_of_getLast? hb, hn, haccount⟩
  · intro hdelivered
    obtain ⟨hin, a, ha, hn, -⟩ := hdelivered
    obtain ⟨b, hb, hab⟩ := h.added a ha
    have hbn : b.1 = bloc.changes.length := by
      have hbound := h.bound b hb
      omega
    have hget : bloc.added.getLast? = some b := hb
    rw [hsettled, hget]
    exact (h.current b hb hbn).trans hin

/-- In a run that keeps the promise, the session follows the last auth
change whenever all handlers have ended. -/
theorem session_follows (events : List Event) (bloc : AuthBloc)
    (h : Events.replay step keepsOrder {} events = some bloc) (hdone : bloc.running = []) :
    bloc.FollowsLast := by
  have hall : Ordered bloc ∧ Faithful bloc := by
    apply Events.replay_invariant (J := fun b => Ordered b ∧ Faithful b) h
      ⟨ordered_empty, faithful_empty⟩
    intro b e b' hb hok hstep
    exact ⟨hb.1.step hb.2 hok hstep, hb.2.step hstep⟩
  exact hall.1.follows hdone

/-! ## Runs -/

/-- A plugin that knows nobody and answers everything. -/
def answering : RevCatAnswer
  | .isAnonymous => .ok true
  | .logIn _ => .ok ()
  | .logOut => .ok ()

/-- A plugin that cannot log in. -/
def refusing : RevCatAnswer
  | .isAnonymous => .ok false
  | .logIn _ => .error .platformException
  | .logOut => .ok ()

/-- `ada` signs in, her document comes twice, and the handler of the first
snapshot throws. -/
def signedInRun : List Event :=
  [.user none, .answer 0 answering, .user (some { uid := "ada" }),
    .snapshot 0 (some (userDoc "ada" [])), .snapshot 0 (some (userDoc "ada" ["rome"])),
    .answer 0 answering, .answer 0 refusing, .answer 0 answering, .answer 0 answering]

theorem session_follows_ada :
    ∃ bloc, Events.replay step keepsOrder {} signedInRun = some bloc ∧
      bloc.state.account = some "ada" ∧ bloc.FollowsLast := by
  have hrun : (Events.replay step keepsOrder {} signedInRun).any (fun b =>
      b.running.isEmpty ∧ b.state.account = some "ada") = true := by decide
  obtain ⟨bloc, hbloc, hends⟩ := (Option.any_eq_true _ _).mp hrun
  simp only [Bool.decide_and, Bool.and_eq_true, decide_eq_true_eq, List.isEmpty_iff] at hends
  exact ⟨bloc, hbloc, hends.2, session_follows signedInRun bloc hbloc hends.1⟩

/-- `ada` signs out while the plugin still logs her in. -/
def overtakenRun : List Event :=
  [.user (some { uid := "ada" }), .snapshot 0 (some (userDoc "ada" [])), .answer 0 answering,
    .user none, .answer 1 answering, .answer 0 answering]

theorem session_outlives_sign_out :
    ¬ ∀ events bloc, Events.replay step Events.free {} events = some bloc →
      bloc.running = [] → bloc.FollowsLast := by
  intro hclaim
  have hrun : (Events.replay step Events.free {} overtakenRun).any (fun b =>
      b.running.isEmpty ∧ b.state.account = some "ada" ∧ b.signedIn = none) = true := by decide
  obtain ⟨bloc, hbloc, hends⟩ := (Option.any_eq_true _ _).mp hrun
  simp only [Bool.decide_and, Bool.and_eq_true, decide_eq_true_eq, List.isEmpty_iff] at hends
  obtain ⟨hdone, hstate, hout⟩ := hends
  have hdelivered := (hclaim overtakenRun bloc hbloc hdone "ada").mp hstate
  rw [hdelivered.1] at hout
  cases hout

end GottaGo.AuthBloc
