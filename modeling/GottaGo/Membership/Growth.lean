/-
GottaGo.Membership.Growth — the two sides of membership under concurrent
growth: any number of clients creating lists and adding contributors.

Both functions write the list's document first and the user's second, so
each call is a handshake (`Async/Handshake.lean`) that announces a pair
on the list's side and then links it on the user's. The argument has
three layers:

1. `GrowthPoint.adv_of_step`: between two awaits a call sits at one of
   seven control points, and `GrowthAdv` lists what it can do there.
2. `growth_simulates`: seen through `sides`, every such step is a step of
   the handshake or none. The one thing to know is that a drawn id still
   names no document when its list is written (`FreshPending`).
3. The handshake's two theorems, read back on the store.
-/
import GottaGo.Async.Handshake
import GottaGo.Bloc.Handlers
import GottaGo.Membership.Agreement

namespace GottaGo

open GottaGo.Async GottaGo.Async.Pool GottaGo.Firestore

/-! ## The calls and their control points -/

/-- The calls that may start: creating a list with the dialog's value, by
the signed-in user, and adding an existing user to an existing list. -/
inductive GrowthStart : AppState → AppState → App Unit → Prop
  | create (st : AppState) (firebaseUser : AuthUser) (name : String) :
      GrowthStart st st (PlaceListRepository.createPlaceList firebaseUser
        (createListDialog firebaseUser.uid name))
  | add (st : AppState) (placeListId userId : String) :
      (st.store.get (.placeLists placeListId)).isSome →
      (st.store.get (.users userId)).isSome →
      GrowthStart st st
        (PlaceListRepository.addContributorToList placeListId userId).void

/-- Where a call stands between two awaits. -/
inductive GrowthPoint where
  | create (firebaseUser : AuthUser) (name : String)
  | writeList (firebaseUser : AuthUser) (name id : String)
  | linkOwner (uid id : String)
  | add (placeListId userId : String)
  | nameContributor (placeListId userId : String) (invitedUser : User)
      (h : invitedUser.id = some userId)
  | linkContributor (placeListId userId : String) (invitedUser : User)
      (h : invitedUser.id = some userId)
  | ended

namespace GrowthPoint

open Fire

/-- What is left of the call at a control point. -/
def task : GrowthPoint → App Unit
  | .create firebaseUser name =>
    PlaceListRepository.createPlaceList firebaseUser
      (createListDialog firebaseUser.uid name)
  | .writeList firebaseUser name id =>
    rethrowing do
      let fields ← Prog.ofExcept
        ((createListDialog firebaseUser.uid name).copyWith
          { placeListId := some id }).toDocument
      set (.placeLists id) fields
      update (.users firebaseUser.uid) [("placeListIds", .arrayUnion [.str id])]
  | .linkOwner uid id =>
    rethrowing (update (.users uid) [("placeListIds", .arrayUnion [.str id])])
  | .add placeListId userId =>
    (PlaceListRepository.addContributorToList placeListId userId).void
  | .nameContributor placeListId _ invitedUser _ =>
    (onFirebaseException
      (do
        update (.placeLists placeListId)
          [("contributorIds", .arrayUnion [.ofString? invitedUser.id])]
        let ref ← doc .users invitedUser.id
        update ref [("placeListIds", .arrayUnion [.str placeListId])]
        return some invitedUser)
      (return none)).void
  | .linkContributor placeListId _ invitedUser _ =>
    (onFirebaseException
      (do
        let ref ← doc .users invitedUser.id
        update ref [("placeListIds", .arrayUnion [.str placeListId])]
        return some invitedUser)
      (return none)).void
  | .ended => .ret ()

end GrowthPoint

/-- The fields of the list that `CreateListDialog` builds. -/
def createdFields (uid name : String) : List (String × Value) :=
  [("name", .str name), ("placeCount", .int 0), ("listOwnerId", .str uid),
   ("icon", .map []), ("contributorIds", .strs [])]

/-- What a call can do at each control point when nothing fails. -/
inductive GrowthAdv : AppState → GrowthPoint → AppState → GrowthPoint → Prop
  | draw {st : AppState} {firebaseUser : AuthUser} {name id : String} :
      Fresh st .placeLists id →
      GrowthAdv st (.create firebaseUser name) (st.draw id)
        (.writeList firebaseUser name id)
  | writeList {st : AppState} {firebaseUser : AuthUser} {name id : String} :
      GrowthAdv st (.writeList firebaseUser name id)
        (st.commit (.set (.placeLists id) (Doc.ofList (createdFields firebaseUser.uid name)))
          (st.store.put (.placeLists id)
            (Doc.ofList (createdFields firebaseUser.uid name))))
        (.linkOwner firebaseUser.uid id)
  | linkOwner {st : AppState} {uid id : String} {s' : Store Path} :
      (linkOwnerWrite uid id).apply st.store = some s' →
      GrowthAdv st (.linkOwner uid id) (st.commit (linkOwnerWrite uid id) s') .ended
  | arrive {st : AppState} {l u : String} {invitedUser : User}
      (h : invitedUser.id = some u) :
      GrowthAdv st (.add l u) st (.nameContributor l u invitedUser h)
  | unreadable {st : AppState} {l u : String} :
      GrowthAdv st (.add l u) st .ended
  | nameContributor {st : AppState} {l u : String} {invitedUser : User}
      {s' : Store Path} (h : invitedUser.id = some u) :
      (nameContributorWrite l u).apply st.store = some s' →
      GrowthAdv st (.nameContributor l u invitedUser h)
        (st.commit (nameContributorWrite l u) s') (.linkContributor l u invitedUser h)
  | linkContributor {st : AppState} {l u : String} {invitedUser : User}
      {s' : Store Path} (h : invitedUser.id = some u) :
      (linkOwnerWrite u l).apply st.store = some s' →
      GrowthAdv st (.linkContributor l u invitedUser h)
        (st.commit (linkOwnerWrite u l) s') .ended

/-- Every step of a call is one of `GrowthAdv`. -/
theorem GrowthPoint.adv_of_step {st st' : AppState} {p : GrowthPoint} {t' : App Unit}
    (h : Prog.Step Served st p.task st' t') :
    ∃ p' : GrowthPoint, t' = p'.task ∧ GrowthAdv st p st' p' := by
  cases p with
  | create firebaseUser name =>
    obtain ⟨r, hr, rfl⟩ := h
    obtain ⟨id, hid, rfl, rfl⟩ := served_newDoc.mp hr
    exact ⟨.writeList firebaseUser name id, rfl, .draw hid⟩
  | writeList firebaseUser name id =>
    obtain ⟨r, hr, rfl⟩ := h
    obtain ⟨s', hs', rfl, rfl⟩ := served_write.mp hr
    cases hs'
    exact ⟨.linkOwner firebaseUser.uid id, rfl, .writeList⟩
  | linkOwner uid id =>
    obtain ⟨r, hr, rfl⟩ := h
    obtain ⟨s', hs', rfl, rfl⟩ := served_write.mp hr
    exact ⟨.ended, rfl, .linkOwner hs'⟩
  | add l u =>
    obtain ⟨r, hr, rfl⟩ := h
    obtain ⟨rfl, rfl⟩ := served_snapshot.mp hr
    cases hu : User.fromSnapshot u (st'.store.get (.users u)) with
    | error e =>
      refine ⟨.ended, ?_, .unreadable⟩
      simp only [Prog.ofExcept, Prog.bind, Prog.bind_eq,
        PlaceListRepository.userArrived, Option.bind_some, hu, Except.toOption]
      rfl
    | ok invitedUser =>
      have hid := (User.fromSnapshot_ok hu).1
      refine ⟨.nameContributor l u invitedUser hid, ?_, .arrive hid⟩
      simp only [Prog.ofExcept, Prog.bind, Prog.bind_eq,
        PlaceListRepository.userArrived, Option.bind_some, hu, Except.toOption]
      rfl
  | nameContributor l u invitedUser hid =>
    obtain ⟨_, _, _, _, _, _⟩ := invitedUser
    cases hid
    obtain ⟨r, hr, rfl⟩ := h
    obtain ⟨s', hs', rfl, rfl⟩ := served_write.mp hr
    exact ⟨.linkContributor l u _ rfl, rfl, .nameContributor rfl hs'⟩
  | linkContributor l u invitedUser hid =>
    obtain ⟨_, _, _, _, _, _⟩ := invitedUser
    cases hid
    obtain ⟨r, hr, rfl⟩ := h
    obtain ⟨s', hs', rfl, rfl⟩ := served_write.mp hr
    exact ⟨.ended, rfl, .linkContributor rfl hs'⟩
  | ended => exact h.elim

/-! ## Drawn ids -/

/-- The id a call has drawn for a list it has not written yet. -/
def GrowthPoint.pending? : GrowthPoint → Option String
  | .writeList _ _ id => some id
  | _ => none

/-- A call starts at one of the two functions' heads. -/
def GrowthPointStart (st st' : AppState) (p : GrowthPoint) : Prop :=
  st' = st ∧ p.pending? = none ∧
    ((∃ firebaseUser name, p = .create firebaseUser name) ∨ ∃ l u, p = .add l u)

/-- The ids drawn and not written yet are distinct, have been drawn, and
name no list. -/
structure FreshPending (c : Pool AppState GrowthPoint) : Prop where
  nodup : (c.threads.filterMap GrowthPoint.pending?).Nodup
  fresh : ∀ id ∈ c.threads.filterMap GrowthPoint.pending?,
    c.state.store.get (.placeLists id) = none ∧ id ∈ c.state.drawn

/-- A step that draws nothing and writes no list keeps the pending ids. -/
theorem FreshPending.swap {st : AppState} {pre post : List GrowthPoint}
    {p p' : GrowthPoint} (h : FreshPending ⟨st, pre ++ p :: post⟩)
    (hp : p'.pending? = p.pending?) : FreshPending ⟨st, pre ++ p' :: post⟩ := by
  have hps : (pre ++ p' :: post).filterMap GrowthPoint.pending? =
      (pre ++ p :: post).filterMap GrowthPoint.pending? := by
    simp only [List.filterMap_append, List.filterMap_cons, hp]
  exact ⟨hps ▸ h.nodup, hps ▸ h.fresh⟩

/-- An `update` makes no document. -/
theorem FreshPending.update {st : AppState} {ps : List GrowthPoint} {p : Path}
    {fs : List (String × FieldWrite)} {s' : Store Path}
    (h : FreshPending ⟨st, ps⟩) (hw : (Write.update p fs).apply st.store = some s') :
    FreshPending ⟨st.commit (.update p fs) s', ps⟩ := by
  refine ⟨h.nodup, fun id hid => ?_⟩
  obtain ⟨hn, hd⟩ := h.fresh id hid
  have hsome := Write.get_update_isSome hw (.placeLists id)
  rw [hn, Option.isSome_none] at hsome
  exact ⟨Option.not_isSome_iff_eq_none.mp (by simpa using hsome), hd⟩

theorem FreshPending.step {c c' : Pool AppState GrowthPoint} (h : FreshPending c)
    (hs : Step GrowthPointStart GrowthAdv c c') : FreshPending c' := by
  cases hs with
  | start ts ht =>
    obtain ⟨rfl, hp, -⟩ := ht
    have hps : (_ :: ts).filterMap GrowthPoint.pending? =
        ts.filterMap GrowthPoint.pending? := List.filterMap_cons_none hp
    exact ⟨hps ▸ h.nodup, hps ▸ h.fresh⟩
  | adv pre post ht =>
    cases ht with
    | @draw firebaseUser name id hid =>
      obtain ⟨hnd, hfresh⟩ := h
      simp only [List.filterMap_append, List.filterMap_cons, GrowthPoint.pending?]
        at hnd hfresh
      have hnew : id ∉ pre.filterMap GrowthPoint.pending? ++
          post.filterMap GrowthPoint.pending? := fun hm => hid.2 (hfresh id hm).2
      refine ⟨?_, fun k hk => ?_⟩
      · simp only [List.filterMap_append, List.filterMap_cons, GrowthPoint.pending?]
        exact (List.perm_middle.nodup_iff).mpr (List.nodup_cons.mpr ⟨hnew, hnd⟩)
      · simp only [List.filterMap_append, List.filterMap_cons, GrowthPoint.pending?]
          at hk
        rcases List.mem_cons.mp (List.perm_middle.mem_iff.mp hk) with rfl | hk
        · exact ⟨hid.1, List.mem_cons_self⟩
        · exact ⟨(hfresh k hk).1, List.mem_cons_of_mem _ (hfresh k hk).2⟩
    | @writeList firebaseUser name id =>
      obtain ⟨hnd, hfresh⟩ := h
      simp only [List.filterMap_append, List.filterMap_cons, GrowthPoint.pending?]
        at hnd hfresh
      obtain ⟨hnot, hnd'⟩ := List.nodup_cons.mp (List.perm_middle.nodup_iff.mp hnd)
      refine ⟨?_, fun k hk => ?_⟩
      · simpa only [List.filterMap_append, List.filterMap_cons, GrowthPoint.pending?]
          using hnd'
      · simp only [List.filterMap_append, List.filterMap_cons, GrowthPoint.pending?]
          at hk
        -- the id just written is no longer pending, and the others differ
        have hne : Path.placeLists k ≠ .placeLists id := by
          rintro ⟨⟩
          exact hnot hk
        obtain ⟨hn, hd⟩ :=
          hfresh k (List.perm_middle.mem_iff.mpr (List.mem_cons_of_mem _ hk))
        exact ⟨(Store.get_put_of_ne _ _ hne).trans hn, hd⟩
    | linkOwner hw => exact (h.update hw).swap rfl
    | arrive hid => exact h.swap rfl
    | unreadable => exact h.swap rfl
    | nameContributor hid hw => exact (h.update hw).swap rfl
    | linkContributor hid hw => exact (h.update hw).swap rfl

/-! ## The handshake -/

/-- The two sides of membership. -/
def sides (s : Store Path) : Handshake.Sides (String × String) where
  named := {x | Names s x.2 x.1}
  linked := {x | HasList s x.1 x.2}

/-- A control point as a stage of the handshake. -/
def GrowthPoint.stage : GrowthPoint → Handshake.Point (String × String)
  | .linkOwner uid id => .announced (uid, id)
  | .linkContributor l u _ _ => .announced (u, l)
  | .ended => .ended
  | _ => .idle

/-- A pool of calls as a pool of handshakes. -/
def handshake (c : Pool AppState GrowthPoint) :
    Pool (Handshake.Sides (String × String)) (Handshake.Point (String × String)) :=
  ⟨sides c.state.store, c.threads.map GrowthPoint.stage⟩

/-- Creating a list names its owner. -/
theorem sides_createdList {s : Store Path} {uid name id : String}
    (h : s.get (.placeLists id) = none) :
    sides (s.put (.placeLists id) (Doc.ofList (createdFields uid name))) =
      { sides s with named := insert (uid, id) (sides s).named } := by
  have hn : ∀ x : String × String,
      Names (s.put (.placeLists id) (Doc.ofList (createdFields uid name))) x.2 x.1 ↔
        x ∈ insert (uid, id) (sides s).named := by
    intro x
    rw [names_set h uid [] (by simp [createdFields, List.lookup_cons])
      (by simp [createdFields, List.lookup_cons])]
    simp [sides, Prod.ext_iff, or_comm, and_comm]
  have hl : ∀ u l,
      HasList (s.put (.placeLists id) (Doc.ofList (createdFields uid name))) u l ↔
        HasList s u l :=
    hasList_of_list_write (Write.apply_set s _ _) rfl
  simp only [sides, hl, Handshake.Sides.mk.injEq, and_true]
  exact Set.ext hn

theorem sides_linkOwnerWrite {s s' : Store Path} {uid id : String}
    (h : (linkOwnerWrite uid id).apply s = some s') :
    sides s' = { sides s with linked := insert (uid, id) (sides s).linked } := by
  have hn : ∀ l u, Names s' l u ↔ Names s l u := names_of_user_write h rfl
  simp only [sides, hn, hasList_arrayUnion h, Handshake.Sides.mk.injEq, true_and]
  ext x
  simp [Prod.ext_iff, or_comm]

theorem sides_nameContributorWrite {s s' : Store Path} {l u : String}
    (h : (nameContributorWrite l u).apply s = some s') :
    sides s' = { sides s with named := insert (u, l) (sides s).named } := by
  have hl : ∀ v k, HasList s' v k ↔ HasList s v k := hasList_of_list_write h rfl
  simp only [sides, hl, names_arrayUnion h, Handshake.Sides.mk.injEq, and_true]
  ext x
  simp [Prod.ext_iff, or_comm, and_comm]

/-- Every step of a call is a step of the handshake, or is not seen
there. -/
theorem growth_simulates {c c' : Pool AppState GrowthPoint} (h : FreshPending c)
    (hs : Step GrowthPointStart GrowthAdv c c') :
    handshake c' = handshake c ∨
      Step Handshake.Start Handshake.Adv (handshake c) (handshake c') := by
  cases hs with
  | @start st st' p ts ht =>
    obtain ⟨rfl, -, hp⟩ := ht
    have hidle : p.stage = .idle := by
      rcases hp with ⟨_, _, rfl⟩ | ⟨_, _, rfl⟩ <;> rfl
    right
    simp only [handshake, List.map_cons, hidle]
    exact .start _ ⟨rfl, rfl⟩
  | adv pre post ht =>
    cases ht with
    | draw hid => left; simp [handshake, GrowthPoint.stage]
    | @writeList firebaseUser name id =>
      have hid := (h.fresh id (by simp [GrowthPoint.pending?])).1
      right
      simp only [handshake, List.map_append, List.map_cons, State.commit_store,
        sides_createdList hid]
      exact .adv _ _ (.announce _ _)
    | linkOwner hw =>
      right
      simp only [handshake, List.map_append, List.map_cons, State.commit_store,
        sides_linkOwnerWrite hw]
      exact .adv _ _ (.link _ _)
    | arrive hid => left; simp [handshake, GrowthPoint.stage]
    | unreadable =>
      right
      simp only [handshake, List.map_append, List.map_cons]
      exact .adv _ _ (.quit _)
    | nameContributor hid hw =>
      right
      simp only [handshake, List.map_append, List.map_cons, State.commit_store,
        sides_nameContributorWrite hw]
      exact .adv _ _ (.announce _ _)
    | linkContributor hid hw =>
      right
      simp only [handshake, List.map_append, List.map_cons, State.commit_store,
        sides_linkOwnerWrite hw]
      exact .adv _ _ (.link _ _)

/-! ## Agreement -/

theorem GrowthStart.point {st st' : AppState} {t : App Unit}
    (h : GrowthStart st st' t) : ∃ p : GrowthPoint, t = p.task ∧ GrowthPointStart st st' p := by
  cases h with
  | create firebaseUser name =>
    exact ⟨.create firebaseUser name, rfl, rfl, rfl, .inl ⟨_, _, rfl⟩⟩
  | add l u _ _ => exact ⟨.add l u, rfl, rfl, rfl, .inr ⟨_, _, rfl⟩⟩

/-- A call at `announced` still has its second write to make. -/
theorem GrowthPoint.not_ended {p : GrowthPoint} {x : String × String}
    (h : p.stage = .announced x) : ¬ p.task.Ended := by
  cases p with
  | linkOwner uid l => exact id
  | linkContributor l u invitedUser hid =>
    obtain ⟨_, _, _, _, _, _⟩ := invitedUser
    cases hid
    exact id
  | _ => cases h

/-- Creating lists and adding contributors, under every interleaving:
whatever list a user has names the user, and when no call is in flight
the two sides agree. -/
theorem growth_agree {s : Store Path} {c : Pool AppState (App Unit)} (h : Agree s)
    (hrun : Run GrowthStart (Prog.Step Served) ⟨{ store := s }, []⟩ c) :
    (∀ u l, HasList c.state.store u l → Names c.state.store l u) ∧
      (c.Quiet → Agree c.state.store) := by
  have hrefines : ∃ ps : List GrowthPoint, c.threads = ps.map GrowthPoint.task ∧
      Run GrowthPointStart GrowthAdv ⟨{ store := s }, []⟩ ⟨c.state, ps⟩ := by
    refine Reach.refines GrowthPoint.task ?_ ?_ (fun _ _ _ => trivial) hrun
    · intro st st' t ht
      exact ht.point
    · intro st p st' t' ht
      exact p.adv_of_step ht
  obtain ⟨ps, hps, hpoints⟩ := hrefines
  have hsim : Run Handshake.Start Handshake.Adv
      (handshake ⟨{ store := s }, []⟩) (handshake ⟨c.state, ps⟩) := by
    refine (Reach.simulates handshake (J := FreshPending) ?_ hpoints ?_).2
    · intro d d' hd hs _
      exact ⟨hd.step hs, (growth_simulates hd hs).imp_right fun hs' => ⟨hs', trivial⟩⟩
    · exact ⟨List.nodup_nil, fun _ hid => by cases hid⟩
  have hsides : sides s = ⟨(sides s).named, (sides s).named⟩ := by
    simp only [sides, Handshake.Sides.mk.injEq, true_and]
    exact Set.ext fun x => h x.1 x.2
  rw [handshake, hsides] at hsim
  refine ⟨fun u l hl => Handshake.Run.linked_subset hsim (a := (u, l)) hl,
    fun hq u l => ?_⟩
  have hquiet : ∀ x, .announced x ∉ ps.map GrowthPoint.stage := by
    intro x hx
    obtain ⟨p, hp, hstage⟩ := List.mem_map.mp hx
    exact p.not_ended hstage (hq _ (hps ▸ List.mem_map_of_mem hp))
  exact Set.ext_iff.mp (Handshake.Run.linked_eq hsim hquiet) (u, l)

/-- Ada has the list `rome` to herself, and Bob has no list. -/
def adaAndBobDb : Store Path :=
  .ofList [(.users "ada", userDoc "ada" ["rome"]), (.users "bob", userDoc "bob" []),
    (.placeLists "rome", listDoc "ada" [])]

theorem agree_adaAndBobDb : Agree adaAndBobDb := by
  intro u l
  have hhas : HasList adaAndBobDb u l ↔ u = "ada" ∧ l = "rome" := by
    by_cases hada : u = "ada"
    · simp [HasList, adaAndBobDb, Store.elemsAt, Store.field, Store.get_ofList_cons, hada,
        Value.strs]
    · by_cases hbob : u = "bob" <;>
        simp [HasList, adaAndBobDb, Store.elemsAt, Store.field, Store.get_ofList_cons, hada,
          hbob, Value.strs]
  have hnames : Names adaAndBobDb l u ↔ u = "ada" ∧ l = "rome" := by
    by_cases hrome : l = "rome" <;>
      simp [Names, Contributes, adaAndBobDb, Store.elemsAt, Store.field,
        Store.get_ofList_cons, hrome, Value.strs, eq_comm]
  rw [hhas, hnames]

/-- Ada makes another list while Bob is added to the one she has. Each call is
half done at some time while the other goes on. -/
theorem growth_agree_create : ∃ c : Pool AppState (App Unit),
    (HasList c.state.store "ada" "list" ∧ HasList c.state.store "bob" "rome") ∧
      (Names c.state.store "list" "ada" ∧ Names c.state.store "rome" "bob") ∧
      Agree c.state.store := by
  have hplay : ∃ c : Pool AppState (App Unit),
      Run GrowthStart (Prog.Step Served) ⟨{ store := adaAndBobDb }, []⟩ c ∧
        (HasList c.state.store "ada" "list" ∧ HasList c.state.store "bob" "rome") ∧ c.Quiet :=
    Reach.exists_play
      [PlaceListRepository.createPlaceList { uid := "ada" } (createListDialog "ada" "Paris"),
        (PlaceListRepository.addContributorToList "rome" "bob").void]
      [(0, { draw := "list" }), (1, {}), (0, {}), (1, {}), (0, {}), (1, {})]
      (fun _ => true) step_of_nextServed (fun _ _ => trivial)
      (by
        simp only [List.mem_cons, List.not_mem_nil, or_false, forall_eq_or_imp, forall_eq]
        exact ⟨.create _ _ _, .add _ _ _ (by decide) (by decide)⟩)
      (fun _ _ => trivial) (by decide)
  obtain ⟨c, hrun, ⟨hada, hbob⟩, hq⟩ := hplay
  have h := growth_agree agree_adaAndBobDb hrun
  exact ⟨c, ⟨hada, hbob⟩, ⟨h.1 _ _ hada, h.1 _ _ hbob⟩, h.2 hq⟩

end GottaGo
