/-
GottaGo.Invites.Inbox — `InviteInboxBloc` over a subcollection that changes.

Every `LoadInvites` that counts an invite opens another listener of
`getInvites`, and none is ever closed but by an error. A listener is due the
snapshot of the moment it is opened, and one more whenever what it listens
to changes. Snapshots of one listener come in order, those of different
listeners in any order. A count is made by the server, and may be old when it
comes.

`Listens` says of one listener that what was issued to it last is of the
subcollection as it is now. With it, `inbox_exact` shows that the inbox is
exact in the runs in which an invite is only ever added to an empty list,
when nothing else is on its way. In `one_of_two_published` two invites are
stored, and the bloc tells its listeners of one.
-/
import GottaGo.Async.Events
import GottaGo.Bloc.InviteInbox
import GottaGo.Model.DocumentsTheorems

namespace GottaGo

open GottaGo.Async GottaGo.Firestore

/-! ## The inbox -/

/-- `counts` are the counts that the server has made and that are on their way
to the handlers that wait for them. -/
structure Inbox where
  docs : InviteDocs
  bloc : InviteInboxBloc := {}
  listeners : List InvitesListener := []
  counts : List Nat := []

namespace Inbox

/-- What happens: any client writes or deletes an invite, the three kinds of
event are added, the server counts for a `getInviteCount`, count `j` comes or
a call throws, the subcollection's snapshot comes to listener `i`, or a
document's to listener `k` below it. -/
inductive Happening where
  | put (id : String) (d : Doc)
  | del (id : String)
  | load
  | answer (answer : InviteAnswer)
  | elapse
  | count
  | counted (j : Nat)
  | uncounted
  | collection (i : Nat)
  | document (i k : Nat)

def change (s : Inbox) (docs' : InviteDocs) : Inbox :=
  { s with
    docs := docs'
    listeners := s.listeners.map (·.owe s.docs docs') }

/-- Writing what is there already changes nothing. -/
def put (s : Inbox) (id : String) (d : Doc) : Inbox :=
  if s.docs.lookup id = some d then s else s.change (s.docs.insert id d)

def del (s : Inbox) (id : String) : Inbox :=
  if s.docs.lookup id = none then s else s.change (s.docs.erase id)

/-- The two seconds of an answer are over. -/
def elapse (s : Inbox) : Option Inbox :=
  if s.bloc.delayed = 0 then none
  else
    let waited := { s.bloc with delayed := s.bloc.delayed - 1 }
    some { s with bloc := waited.loadInvites }

/-- The server counts for a handler that waits for it. -/
def count (s : Inbox) : Option Inbox :=
  if s.counts.length < s.bloc.counting then
    some { s with counts := s.counts ++ [InviteRepository.getInviteCount s.docs] }
  else none

/-- Count `j` comes to a handler. -/
def counted (s : Inbox) (j : Nat) : Option Inbox :=
  match s.counts[j]? with
  | none => none
  | some inviteCount =>
    let bloc := { s.bloc with counting := s.bloc.counting - 1 }
    let counts := s.counts.eraseIdx j
    if inviteCount > 0 then
      some { s with bloc := bloc, counts := counts
                    listeners := s.listeners ++ [.opened s.docs] }
    else some { s with bloc := bloc.noInvites, counts := counts }

/-- `getInviteCount` throws in a handler, which ends it. -/
def uncounted (s : Inbox) : Option Inbox :=
  if s.counts.length < s.bloc.counting then
    some { s with bloc := { s.bloc with counting := s.bloc.counting - 1 } }
  else none

/-- Listener `i` is handed the oldest snapshot of the subcollection. -/
def collection (s : Inbox) (i : Nat) : Option Inbox :=
  match s.listeners[i]? with
  | none => none
  | some l =>
    match l.due with
    | [] => none
    | ids :: rest => some { s with listeners := s.listeners.set i (.switch s.docs ids rest) }

/-- Listener `k` below `i` is handed the oldest snapshot of its document. One
that cannot be read ends the `forEach`, and closes listener `i`. -/
def document (s : Inbox) (i k : Nat) : Option Inbox :=
  match s.listeners[i]? with
  | none => none
  | some l =>
    match l.below[k]? with
    | none => none
    | some x =>
      match x.due with
      | [] => none
      | d :: rest =>
        match Invite.fromSnapshot x.id d with
        | .ok invite => some { s with
            bloc := s.bloc.onInvite invite
            listeners := s.listeners.set i (l.hand k x rest) }
        | .error _ => some { s with listeners := s.listeners.eraseIdx i }

def step (s : Inbox) : Happening → Option Inbox
  | .put id d => some (s.put id d)
  | .del id => some (s.del id)
  | .load => some { s with bloc := s.bloc.loadInvites }
  | .answer answer => some { s with bloc := s.bloc.answerInvite answer }
  | .elapse => s.elapse
  | .count => s.count
  | .counted j => s.counted j
  | .uncounted => s.uncounted
  | .collection i => s.collection i
  | .document i k => s.document i k

/-- Some snapshot is on its way. -/
def onWay (listeners : List InvitesListener) : Bool := listeners.any (·.pending)

/-- Each invite of the subcollection is in `invites` once and nothing else is,
and the state that was published last, which is the current one, carried
that list then. -/
structure ShowsExactly (s : Inbox) : Prop where
  stored : ∃ invites : List Invite,
    s.docs.entries.map (fun e => Invite.fromSnapshot e.1 (some e.2)) = invites.map .ok ∧
      s.bloc.invites.Perm invites
  state : s.bloc.state = { status := .loaded, invites := some s.bloc.invites }
  published : s.bloc.published = some s.bloc.state

/-! ## The promise -/

/-- The bloc does not show a list that may be wrong by now: it is not loaded,
or something is still on its way to it. -/
def unsettled (bloc : InviteInboxBloc) (listeners : List InvitesListener) : Bool :=
  bloc.status ≠ .loaded || onWay listeners

/-- The promise of a run that is exact.

While the bloc is loaded the subcollection changes only if some listener is
open. A count of 0 comes while there is still no invite and `invites` is empty,
or while some snapshot is on its way. A snapshot of the subcollection that leaves
nothing on its way to a loaded bloc comes while `invites` is empty. An invite
comes while `invites` is empty, and nothing else is on its way. A document that
cannot be read does not come last to a loaded bloc. -/
def keepsExact (s : Inbox) : Happening → Bool
  | .put id d =>
    s.docs.lookup id = some d || s.bloc.status ≠ .loaded || !s.listeners.isEmpty
  | .del id => s.docs.lookup id = none || s.bloc.status ≠ .loaded || !s.listeners.isEmpty
  | .counted j =>
    s.counts[j]? ≠ some 0 || onWay s.listeners ||
      (s.docs.keys = [] && s.bloc.invites.isEmpty)
  | .collection i =>
    match s.listeners[i]? with
    | some ⟨ids :: rest, _⟩ =>
      s.bloc.invites.isEmpty ||
        unsettled s.bloc (s.listeners.set i (.switch s.docs ids rest))
    | _ => true
  | .document i k =>
    match s.listeners[i]? with
    | some l =>
      match l.below[k]? with
      | some ⟨id, d :: rest⟩ =>
        if (Invite.fromSnapshot id d).isOk then
          s.bloc.invites.isEmpty && !onWay (s.listeners.set i (l.hand k ⟨id, d :: rest⟩ rest))
        else unsettled s.bloc (s.listeners.eraseIdx i)
      | _ => true
    | none => true
  | _ => true

/-! ## What a listener is due -/

/-- Of all that was issued to a listener the last is of the subcollection as
it is now, and so it is for the listeners below it. If there are several of
them, each has something on its way. -/
structure Listens (docs : InviteDocs) (l : InvitesListener) : Prop where
  last : ∀ ids, l.due.getLast? = some ids → ids = docs.keys
  came : l.due = [] → l.below.map (·.id) = docs.keys
  current : ∀ x ∈ l.below, ∀ d, x.due.getLast? = some d → d = docs.lookup x.id
  whole : l.below.length ≤ 1 ∨ ∀ x ∈ l.below, x.due ≠ []

section Listener

variable {docs docs' : InviteDocs} {l : InvitesListener}

theorem pending_eq_false :
    l.pending = false ↔ l.due = [] ∧ ∀ x ∈ l.below, x.due = [] := by
  simp [InvitesListener.pending]

theorem listens_opened (docs : InviteDocs) : Listens docs (.opened docs) where
  last := by simp [InvitesListener.opened]
  came := by simp [InvitesListener.opened]
  current := by simp [InvitesListener.opened]
  whole := by simp [InvitesListener.opened]

theorem pending_opened (docs : InviteDocs) : (InvitesListener.opened docs).pending = true := rfl

theorem Listens.owe (h : Listens docs l) (docs' : InviteDocs) :
    Listens docs' (l.owe docs docs') where
  last := by simp [InvitesListener.owe]
  came := by simp [InvitesListener.owe]
  current := by
    intro y hy d hd
    obtain ⟨x, hx, rfl⟩ := List.mem_map.mp hy
    show d = docs'.lookup x.id
    simp only [DocumentListener.owe] at hd
    split at hd
    · next hsame =>
      rw [hsame]
      exact h.current x hx d hd
    · rw [List.getLast?_concat] at hd
      exact (Option.some.inj hd).symm
  whole := by
    rcases h.whole with hfew | hall
    · exact .inl (by simpa [InvitesListener.owe] using hfew)
    · refine .inr fun y hy => ?_
      obtain ⟨x, hx, rfl⟩ := List.mem_map.mp hy
      simp only [DocumentListener.owe]
      split
      · exact hall x hx
      · simp

theorem pending_owe : (l.owe docs docs').pending = true := by
  simp [InvitesListener.owe, InvitesListener.pending]

/-- A snapshot of the subcollection starts the listeners below anew. -/
theorem Listens.switch (h : Listens docs l) {ids : List String} {rest : List (List String)}
    (hdue : l.due = ids :: rest) : Listens docs (.switch docs ids rest) where
  last := by
    intro ids' hids
    have hrest : rest.getLast? = some ids' := hids
    apply h.last
    rw [hdue, List.getLast?_cons, hrest]
    rfl
  came := by
    intro hnil
    have hrest : rest = [] := hnil
    have hids : ids = docs.keys := h.last ids (by rw [hdue, hrest]; rfl)
    simp [InvitesListener.switch, Function.comp_def, hids]
  current := by simp [InvitesListener.switch]
  whole := .inr (by simp [InvitesListener.switch])

/-- A snapshot of the subcollection that leaves nothing on its way is one of
no documents, and there are none. -/
theorem Listens.keys_eq_nil (h : Listens docs l) {ids : List String}
    {rest : List (List String)} (hdue : l.due = ids :: rest)
    (hquiet : (InvitesListener.switch docs ids rest).pending = false) : docs.keys = [] := by
  obtain ⟨hrest, hbelow⟩ := pending_eq_false.mp hquiet
  rw [← (h.switch hdue).came hrest]
  cases ids with
  | nil => rfl
  | cons id ids => simp [InvitesListener.switch] at hbelow

variable {k : Nat} {x : DocumentListener} {d : Option Doc} {rest : List (Option Doc)}

/-- If a document's snapshot leaves nothing on its way, its listener is the
only one below, and the document the only one there is. -/
theorem Listens.only (h : Listens docs l) (hk : l.below[k]? = some x)
    (hquiet : (l.hand k x rest).pending = false) :
    l.below = [x] ∧ k = 0 ∧ rest = [] ∧ docs.keys = [x.id] := by
  obtain ⟨hdue, hbelow⟩ := pending_eq_false.mp hquiet
  obtain ⟨hlt, hget⟩ := List.getElem?_eq_some_iff.mp hk
  have hfew : l.below.length ≤ 1 := by
    rcases h.whole with hfew | hall
    · exact hfew
    · by_contra hmany
      -- another one has something on its way
      obtain ⟨j, hj, hne⟩ : ∃ j, j < l.below.length ∧ k ≠ j := by
        by_cases hzero : k = 0
        · exact ⟨1, by omega, by omega⟩
        · exact ⟨0, by omega, hzero⟩
      have hsame : (l.hand k x rest).below[j]? = some l.below[j] :=
        (List.getElem?_set_ne hne).trans (List.getElem?_eq_getElem hj)
      exact hall _ (List.getElem_mem hj) (hbelow _ (List.mem_of_getElem? hsame))
  have hzero : k = 0 := by omega
  subst hzero
  have hone : l.below = [x] := by
    obtain ⟨y, hy⟩ := List.length_eq_one_iff.mp (show l.below.length = 1 by omega)
    rw [hy] at hk ⊢
    simpa using hk
  refine ⟨hone, rfl, ?_, ?_⟩
  · have hmem : ({ x with due := rest } : DocumentListener) ∈ (l.hand 0 x rest).below := by
      simp [InvitesListener.hand, hone]
    exact hbelow _ hmem
  · rw [← h.came hdue, hone]
    rfl

theorem Listens.hand (h : Listens docs l) (hk : l.below[k]? = some x)
    (hquiet : (l.hand k x rest).pending = false) : Listens docs (l.hand k x rest) := by
  obtain ⟨hdue, hbelow⟩ := pending_eq_false.mp hquiet
  obtain ⟨hone, rfl, rfl, hkeys⟩ := h.only hk hquiet
  refine ⟨h.last, fun _ => ?_, ?_, .inl ?_⟩
  · simp [InvitesListener.hand, hone, hkeys]
  · intro y hy d hd
    rw [hbelow y hy] at hd
    cases hd
  · simp [InvitesListener.hand, hone]

end Listener

/-! ## Every event keeps it -/

variable {s s' : Inbox}

theorem onWay_eq_false {listeners : List InvitesListener} :
    onWay listeners = false ↔ ∀ l ∈ listeners, l.pending = false := by
  simp [onWay]

/-- The invariant of the runs that keep the promise. -/
structure Exact (s : Inbox) : Prop where
  listens : ∀ l ∈ s.listeners, Listens s.docs l
  tracked : s.bloc.Tracked
  shows : s.bloc.status = .loaded → onWay s.listeners = false → s.ShowsExactly

/-- In a subcollection with no documents, an empty list is exact. -/
theorem stored_nil (hkeys : s.docs.keys = []) (hnil : s.bloc.invites = []) :
    ∃ invites : List Invite,
      s.docs.entries.map (fun e => Invite.fromSnapshot e.1 (some e.2)) = invites.map .ok ∧
        s.bloc.invites.Perm invites := by
  have hentries : s.docs.entries = [] := List.map_eq_nil_iff.mp hkeys
  exact ⟨[], by simp [hentries], by simp [hnil]⟩

/-- In one with one document, so is the list of its invite. -/
theorem stored_one {id : String} {d : Option Doc} {invite : Invite}
    (hkeys : s.docs.keys = [id]) (hd : d = s.docs.lookup id)
    (hread : Invite.fromSnapshot id d = .ok invite) (hone : s.bloc.invites = [invite]) :
    ∃ invites : List Invite,
      s.docs.entries.map (fun e => Invite.fromSnapshot e.1 (some e.2)) = invites.map .ok ∧
        s.bloc.invites.Perm invites := by
  obtain ⟨doc, hdoc⟩ := Option.isSome_iff_exists.mp (Invite.fromSnapshot_ok hread).2
  obtain ⟨e, hentries, rfl⟩ := List.map_eq_singleton_iff.mp hkeys
  have hmem : ⟨e.1, doc⟩ ∈ s.docs.entries :=
    AList.mem_lookup_iff.mp (Option.mem_def.mpr (hd.symm.trans hdoc))
  rw [hentries, List.mem_singleton] at hmem
  refine ⟨[invite], ?_, by rw [hone]⟩
  rw [hentries, ← hmem]
  simpa [hdoc] using hread

/-- The bloc is not loaded any more. -/
theorem Exact.unloaded (h : s.Exact) {bloc : InviteInboxBloc} (hbloc : bloc.status ≠ .loaded) :
    Exact { s with bloc := bloc } where
  listens := h.listens
  tracked := InviteInboxBloc.tracked_of_ne hbloc
  shows hloaded := absurd hloaded hbloc

theorem Exact.change (h : s.Exact) (docs' : InviteDocs)
    (hok : s.bloc.status ≠ .loaded ∨ s.listeners ≠ []) : (s.change docs').Exact where
  listens := by
    intro l' hl'
    obtain ⟨l, hl, rfl⟩ := List.mem_map.mp hl'
    exact (h.listens l hl).owe docs'
  tracked := h.tracked
  shows := by
    intro hloaded hquiet
    obtain ⟨l, hl⟩ := List.exists_mem_of_ne_nil _ (hok.resolve_left (absurd hloaded))
    have howed := onWay_eq_false.mp hquiet _ (List.mem_map_of_mem hl)
    rw [pending_owe] at howed
    cases howed

theorem Exact.put (h : s.Exact) {id : String} {d : Doc}
    (hok : keepsExact s (.put id d) = true) : (s.put id d).Exact := by
  unfold Inbox.put
  split
  · exact h
  · next hnew => exact h.change _ (by simpa [keepsExact, hnew] using hok)

theorem Exact.del (h : s.Exact) {id : String} (hok : keepsExact s (.del id) = true) :
    (s.del id).Exact := by
  unfold Inbox.del
  split
  · exact h
  · next hthere => exact h.change _ (by simpa [keepsExact, hthere] using hok)

/-- Nothing but how many handlers and counts there are has changed. -/
theorem Exact.recount (h : s.Exact) (counting : Nat) (counts : List Nat) :
    Exact { s with bloc := { s.bloc with counting := counting }, counts := counts } where
  listens := h.listens
  tracked := ⟨h.tracked.carries, h.tracked.nonempty, h.tracked.published⟩
  shows hloaded hquiet :=
    have hshows := h.shows hloaded hquiet
    ⟨hshows.stored, hshows.state, hshows.published⟩

theorem Exact.count (h : s.Exact) (hstep : s.count = some s') : s'.Exact := by
  unfold Inbox.count at hstep
  split at hstep
  · cases hstep
    exact h.recount _ _
  · cases hstep

theorem Exact.uncounted (h : s.Exact) (hstep : s.uncounted = some s') : s'.Exact := by
  unfold Inbox.uncounted at hstep
  split at hstep
  · cases hstep
    exact h.recount _ _
  · cases hstep

theorem Exact.counted (h : s.Exact) {j : Nat} (hok : keepsExact s (.counted j) = true)
    (hstep : s.counted j = some s') : s'.Exact := by
  unfold Inbox.counted at hstep
  split at hstep
  · cases hstep
  · next inviteCount hj =>
    have htracked := (h.recount (s.bloc.counting - 1) s.counts).tracked
    dsimp only at hstep
    split at hstep
    · cases hstep
      refine ⟨?_, htracked, fun _ hquiet => ?_⟩
      · intro l hl
        rcases List.mem_append.mp hl with hl | hl
        · exact h.listens l hl
        · rw [List.mem_singleton.mp hl]
          exact listens_opened s.docs
      · have hopened := onWay_eq_false.mp hquiet (.opened s.docs) (by simp)
        rw [pending_opened] at hopened
        cases hopened
    · next hcount =>
      cases hstep
      obtain rfl : inviteCount = 0 := by omega
      obtain ⟨hno, hinvites, hstate, hpublished⟩ := htracked.noInvites
      refine ⟨h.listens, hno, fun _ hquiet => ?_⟩
      have hquiet' : onWay s.listeners = false := hquiet
      obtain ⟨hkeys, hnil⟩ : s.docs.keys = [] ∧ s.bloc.invites = [] := by
        simpa [keepsExact, hj, hquiet'] using hok
      exact ⟨stored_nil hkeys (hinvites.trans hnil), by rw [hstate, hinvites, hnil], hpublished⟩

/-- A listener is replaced by one that listens. -/
theorem Exact.listens_set (h : s.Exact) (i : Nat) {l : InvitesListener} (hl : Listens s.docs l) :
    ∀ l' ∈ s.listeners.set i l, Listens s.docs l' := by
  intro l' hl'
  rcases List.mem_or_eq_of_mem_set hl' with hl' | rfl
  · exact h.listens l' hl'
  · exact hl

theorem Exact.collection (h : s.Exact) {i : Nat} (hok : keepsExact s (.collection i) = true)
    (hstep : s.collection i = some s') : s'.Exact := by
  unfold Inbox.collection at hstep
  split at hstep
  · cases hstep
  · next l hi =>
    split at hstep
    · cases hstep
    · next ids rest hdue =>
      cases hstep
      have hl := h.listens l (List.mem_of_getElem? hi)
      refine ⟨h.listens_set i (hl.switch hdue), h.tracked, fun hloaded hquiet => ?_⟩
      have hnil : s.bloc.invites = [] := by
        have hloaded' : s.bloc.status = .loaded := hloaded
        obtain ⟨due, below⟩ := l
        cases hdue
        simpa [keepsExact, hi, unsettled, hloaded', hquiet] using hok
      have hswitch := onWay_eq_false.mp hquiet _
        (List.mem_of_getElem? (List.getElem?_set_self (List.getElem?_eq_some_iff.mp hi).1))
      obtain ⟨hstate, hpublished⟩ := h.tracked.of_nil hloaded fun _ => hnil
      exact ⟨stored_nil (hl.keys_eq_nil hdue hswitch) hnil, by rw [hstate, hnil], hpublished⟩

theorem Exact.document (h : s.Exact) {i k : Nat} (hok : keepsExact s (.document i k) = true)
    (hstep : s.document i k = some s') : s'.Exact := by
  unfold Inbox.document at hstep
  split at hstep
  · cases hstep
  · next l hi =>
    split at hstep
    · cases hstep
    · next x hk =>
      split at hstep
      · cases hstep
      · next d rest hdue =>
        have hl := h.listens l (List.mem_of_getElem? hi)
        obtain ⟨id, due⟩ := x
        cases hdue
        simp only [keepsExact, hi, hk] at hok
        split at hstep
        · next invite hread =>
          cases hstep
          simp only [hread, Except.isOk, Except.toBool, if_true, Bool.and_eq_true,
            Bool.not_eq_true', List.isEmpty_iff] at hok
          obtain ⟨hnil, hquiet⟩ := hok
          have hlt := (List.getElem?_eq_some_iff.mp hi).1
          have hhand := onWay_eq_false.mp hquiet _
            (List.mem_of_getElem? (List.getElem?_set_self hlt))
          obtain ⟨-, -, rfl, hkeys⟩ := hl.only hk hhand
          obtain ⟨htracked, hone, hstate, hpublished⟩ := h.tracked.onInvite hnil invite
          have hd : d = s.docs.lookup id :=
            hl.current _ (List.mem_of_getElem? hk) d rfl
          refine ⟨h.listens_set i (hl.hand hk hhand), htracked, fun _ _ => ?_⟩
          exact ⟨stored_one hkeys hd hread hone, by rw [hstate, hone], hpublished⟩
        · next e hread =>
          cases hstep
          refine ⟨fun l' hl' => h.listens l' (List.mem_of_mem_eraseIdx hl'), h.tracked, ?_⟩
          intro hloaded hquiet
          have hloaded' : s.bloc.status = .loaded := hloaded
          simp [hread, Except.isOk, Except.toBool, unsettled, hloaded', hquiet] at hok

theorem Exact.step (h : s.Exact) {e : Happening} (hok : keepsExact s e = true)
    (hstep : step s e = some s') : s'.Exact := by
  cases e with
  | put id d =>
    cases hstep
    exact h.put hok
  | del id =>
    cases hstep
    exact h.del hok
  | load =>
    cases hstep
    exact h.unloaded (by simp)
  | answer answer =>
    cases hstep
    refine h.unloaded ?_
    rw [InviteInboxBloc.status_answerInvite]
    cases answer <;> simp [InviteAnswer.status]
  | elapse =>
    have helapse : s.elapse = some s' := hstep
    unfold Inbox.elapse at helapse
    split at helapse
    · cases helapse
    · cases helapse
      exact h.unloaded (by simp)
  | count => exact h.count hstep
  | counted j => exact h.counted hok hstep
  | uncounted => exact h.uncounted hstep
  | collection i => exact h.collection hok hstep
  | document i k => exact h.document hok hstep

/-! ## The inbox is exact -/

/-- In a run that keeps the promise, the inbox of a loaded bloc is exact
whenever nothing is on its way. -/
theorem inbox_exact (docs : InviteDocs) (happenings : List Happening) (s : Inbox)
    (h : Events.replay step keepsExact { docs := docs } happenings = some s)
    (hloaded : s.bloc.status = .loaded) (hquiet : onWay s.listeners = false) :
    s.ShowsExactly := by
  have hexact : s.Exact := by
    apply Events.replay_invariant (J := Exact) h
    · refine ⟨by simp, InviteInboxBloc.tracked_of_ne (by simp), ?_⟩
      intro hloaded
      cases hloaded
    · intro s e s' hs hok hstep
      exact hs.step hok hstep
  exact hexact.shows hloaded hquiet

/-- `bob` invites `ada` to a list. -/
def inviteTo (placeListId : String) : Doc :=
  Doc.ofList (Invite.toDocument
    { invitedUserId := "ada", listOwnerId := "bob", placeListId := placeListId
      inviteStatus := "sent", placeListName := placeListId, inviterName := "Bob"
      inviteeName := "Ada" })

/-- The first load counts invite `a` and shows it. -/
def shownRun : List Happening :=
  [.load, .count, .counted 0, .collection 0, .document 0 0]

/-- `a` is accepted and deleted, and the second load counts nothing. Then
`b` comes, and the listener of the first load shows it. -/
def acceptedRun : List Happening :=
  shownRun ++ [.answer .acceptInvite, .del "a", .collection 0, .elapse, .count, .counted 0,
    .put "b" (inviteTo "paris"), .collection 0, .document 0 0]

theorem inbox_exact_paris :
    ∃ s, Events.replay step keepsExact { docs := AList.insert "a" (inviteTo "rome") ∅ }
        acceptedRun = some s ∧
      s.bloc.invites.map (·.placeListId) = ["paris"] ∧ s.ShowsExactly := by
  have hrun : (Events.replay step keepsExact
      { docs := AList.insert "a" (inviteTo "rome") ∅ } acceptedRun).any (fun s =>
        s.bloc.invites.map (·.placeListId) = ["paris"] ∧ s.bloc.status = .loaded ∧
          onWay s.listeners = false) = true := by decide
  obtain ⟨s, hs, hends⟩ := (Option.any_eq_true _ _).mp hrun
  obtain ⟨hinvites, hloaded, hquiet⟩ := of_decide_eq_true hends
  exact ⟨s, hs, hinvites, inbox_exact _ acceptedRun s hs hloaded hquiet⟩

/-- Two invites are stored, and both are shown one after the other. -/
def twoRun : List Happening := shownRun ++ [.document 0 1]

theorem one_of_two_published :
    ¬ ∀ docs happenings s, Events.replay step Events.free { docs := docs } happenings = some s →
      s.bloc.status = .loaded → onWay s.listeners = false → s.ShowsExactly := by
  intro hclaim
  have hrun : (Events.replay step Events.free
      { docs := AList.insert "b" (inviteTo "paris") (AList.insert "a" (inviteTo "rome") ∅) }
      twoRun).any (fun s => s.bloc.status = .loaded ∧ onWay s.listeners = false ∧
        s.bloc.invites.length = 2 ∧ s.bloc.published ≠ some s.bloc.state) = true := by decide
  obtain ⟨s, hs, hends⟩ := (Option.any_eq_true _ _).mp hrun
  obtain ⟨hloaded, hquiet, -, hpublished⟩ := of_decide_eq_true hends
  exact hpublished (hclaim _ twoRun s hs hloaded hquiet).published

end Inbox

end GottaGo
