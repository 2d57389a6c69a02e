/-
GottaGo.Membership.Provenance — where members come from.

Nothing in the database ties a membership to an invite: `addContributorToList`
adds whom it is told to, an edit of a list writes back the contributors that
were read when the dialog was opened, an edit of a profile writes back the
lists, and any number of these may overlap or fail half-way. Still nobody gets
into a list but in three ways.

`members_admitted`: whenever a list names a user, or a user has a list, the
list was created for the user, or the user has accepted an invite that was
sent for it by somebody of whom the same holds, or was signed in while a page
showed somebody of whom the same holds; and the owner is whom the list was
created for. All the writes of this chain are in the log by then, so they came
before the membership. Where the pages always show who is signed in, the third
way is none, and everybody else was invited. It is not none in general: the
list that is created on a page of Ada's belongs to Ada, and whoever is signed
in has it (`page_admits`).
-/
import GottaGo.Accounts.Deletion
import GottaGo.App.Conformance

namespace GottaGo

open GottaGo.Async GottaGo.Async.Pool GottaGo.Firestore

/-- The writes of a log. -/
def InLog (st : AppState) (w : Write Path) : Prop := w ∈ st.log

/-- A value in the array of a document of the schema. -/
theorem mem_of_strs {s : Store Path} {p : Path} {d : Doc} {f x : String} {ids : List String}
    (hd : s.get p = some d) (hids : d.get? f = some (.strs ids))
    (hx : .str x ∈ s.elemsAt p f) : x ∈ ids := by
  rw [Store.elemsAt_eq hd, hids] at hx
  simpa [Value.strs] using hx

section Schema

variable {sees : String → String → Prop} {committed : Write Path → Prop} {s : Store Path}
  {u l : String}

theorem HasList.admitted (h : HasList s u l) (hs : Typed (AppSchema sees committed) s) :
    Admitted sees committed l u := by
  obtain ⟨d, hd⟩ := Option.ne_none_iff_exists'.mp (Store.get_ne_none_of_mem h)
  obtain ⟨ids, hids, hhas⟩ := (hs _ d hd).lists
  exact hhas l (mem_of_strs hd hids h)

theorem OwnedBy.founded (h : OwnedBy s l u) (hs : Typed (AppSchema sees committed) s) :
    Founded committed l u := by
  obtain ⟨d, hd, hfield⟩ := Option.bind_eq_some_iff.mp h
  obtain ⟨o, ho, hfounded⟩ := (hs _ d hd).owner
  rw [hfield] at ho
  cases ho
  exact hfounded

theorem NamesUser.admitted (h : NamesUser s l u) (hs : Typed (AppSchema sees committed) s) :
    Admitted sees committed l u := by
  rcases h with howner | hcontributes
  · exact .owner (OwnedBy.founded howner hs)
  · obtain ⟨d, hd⟩ := Option.ne_none_iff_exists'.mp (Store.get_ne_none_of_mem hcontributes)
    obtain ⟨ids, hids, hhas⟩ := (hs _ d hd).contributors
    exact hhas u (mem_of_strs hd hids hcontributes)

end Schema

/-- In every run of the app, the owner that a list names is the one that it was
created for, and whoever a list names or who has it can be traced to the owner
by invites that were sent and accepted and by pages of others; by invites
alone, if the pages show who is signed in. -/
theorem members_admitted {sees : String → String → Prop} {c : Pool AppState (App Unit)}
    (h : AppRun sees ⟨{ store := ∅ }, []⟩ c) (l u : String) :
    (OwnedBy c.state.store l u → Founded (InLog c.state) l u) ∧
      (NamesUser c.state.store l u ∨ HasList c.state.store u l →
        Admitted sees (InLog c.state) l u ∧
          ((∀ a p, sees a p → a = p) → Admitted (fun _ _ => False) (InLog c.state) l u)) := by
  have hstore : Typed (AppSchema sees (InLog c.state)) c.state.store := h.obeys_of_empty.1.store
  refine ⟨fun howner => howner.founded hstore, fun hmember => ?_⟩
  have hadmitted : Admitted sees (InLog c.state) l u := by
    rcases hmember with hnames | hhas
    · exact hnames.admitted hstore
    · exact hhas.admitted hstore
  exact ⟨hadmitted, hadmitted.of_own⟩

/-! ## Ada and Bob -/

/-- Ada makes a list and invites Bob to it; he accepts. -/
def bobJoins : List (Move AppLaunch Outcome) :=
  [.start (.session ⟨some { uid := "ada" }, "ada", .signUp "Ada" none⟩), .adv 0 {},
    .start (.session ⟨some { uid := "ada" }, "ada", .createList "Rome"⟩), .adv 0 { draw := "rome" },
    .adv 0 {}, .adv 0 {},
    .start (.session ⟨some { uid := "bob" }, "bob", .signUp "Bob" none⟩), .adv 0 {},
    .start (.session ⟨some { uid := "bob" }, "bob", .pickUsername "Bob" none none "bob"⟩),
    .adv 0 {}, .adv 0 {}, .adv 0 {},
    .start (.session ⟨some { uid := "ada" }, "ada", .inviteTo "rome" "bob" "ada"⟩),
    .adv 0 {}, .adv 0 {}, .adv 0 {}, .adv 0 {},
    .start (.snapshot 0), .adv 0 { draw := "i" }, .adv 0 {},
    .start (.session ⟨some { uid := "bob" }, "bob", .answerInvite .acceptInvite "i"⟩),
    .adv 0 {}, .adv 0 {}, .adv 0 {}, .adv 0 {}, .adv 0 {}, .adv 0 {}]

/-- They use their own pages. -/
def AdaAndBob (a p : String) : Prop := (a = "ada" ∨ a = "bob") ∧ a = p

instance : DecidableRel AdaAndBob := fun a p =>
  inferInstanceAs (Decidable ((a = _ ∨ a = _) ∧ a = p))

theorem bobJoins_run : ∃ c : Pool AppState (App Unit),
    AppRun AdaAndBob ⟨{ store := ∅ }, []⟩ c ∧ Contributes c.state.store "rome" "bob" :=
  AppRun.exists_playMoves bobJoins (by decide)

/-- Bob can be traced to Ada by invites alone. -/
theorem members_admitted_bob : ∃ c : Pool AppState (App Unit),
    Contributes c.state.store "rome" "bob" ∧
      Admitted (fun _ _ => False) (InLog c.state) "rome" "bob" := by
  obtain ⟨c, hrun, hbob⟩ := bobJoins_run
  exact ⟨c, hbob, ((members_admitted hrun "rome" "bob").2 (.inl (.inr hbob))).2
    fun _ _ hsees => hsees.2⟩

/-- Bob signs in on the phone of Ada, whose page is still there. On it he makes a
list and changes the name. -/
def bobOnAdasPage : List (Move AppLaunch Outcome) :=
  [.start (.session ⟨some { uid := "ada" }, "ada", .signUp "Ada" none⟩), .adv 0 {},
    .start (.session ⟨some { uid := "bob" }, "bob", .signUp "Bob" none⟩), .adv 0 {},
    .start (.session ⟨some { uid := "bob" }, "ada", .createList "Rome"⟩), .adv 0 { draw := "rome" },
    .adv 0 {}, .adv 0 {},
    .start (.session ⟨some { uid := "bob" }, "ada", .changeName "Bob"⟩), .adv 0 {}, .adv 0 {}]

/-- They use any pages of each other. -/
def AdaOrBob (a p : String) : Prop := (a = "ada" ∨ a = "bob") ∧ (p = "ada" ∨ p = "bob")

instance : DecidableRel AdaOrBob := fun a p =>
  inferInstanceAs (Decidable ((a = _ ∨ a = _) ∧ (p = _ ∨ p = _)))

/-- No invite is written, and the lists are Ada's. -/
def NoInvite : Write Path → Prop
  | .set (.invites _ _) _ => False
  | .set (.placeLists _) d => d.get? "listOwnerId" = some (.str "ada")
  | _ => True

instance : DecidablePred NoInvite
  | .set (.invites _ _) _ => inferInstanceAs (Decidable False)
  | .set (.placeLists _) _ => inferInstanceAs (Decidable (_ = _))
  | .set (.users _) _ | .set (.usernames _) _ | .set (.places _ _) _
  | .set (.visitedPlaces _ _) _ | .update _ _ | .delete _ => inferInstanceAs (Decidable True)

theorem bobOnAdasPage_run : ∃ c : Pool AppState (App Unit),
    AppRun AdaOrBob ⟨{ store := ∅ }, []⟩ c ∧
      (HasList c.state.store "bob" "rome" ∧ OwnedBy c.state.store "rome" "ada") ∧
      ∀ w ∈ c.state.log, NoInvite w :=
  AppRun.exists_playMoves bobOnAdasPage (by decide)

theorem Admitted.founded_of_noInvite {committed : Write Path → Prop} {l u : String}
    (h : Admitted (fun _ _ => False) committed l u) (hno : ∀ w, committed w → NoInvite w) :
    Founded committed l u := by
  cases h with
  | owner hfounded => exact hfounded
  | page _ hsees => exact hsees.elim
  | invitee _ _ hset => exact (hno _ hset).elim

/-- Bob has a list of Ada's then, and there has been no invite. -/
theorem page_admits : ∃ c : Pool AppState (App Unit),
    AppRun AdaOrBob ⟨{ store := ∅ }, []⟩ c ∧ HasList c.state.store "bob" "rome" ∧
      ¬ Admitted (fun _ _ => False) (InLog c.state) "rome" "bob" := by
  obtain ⟨c, hrun, ⟨hbob, -⟩, hlog⟩ := bobOnAdasPage_run
  refine ⟨c, hrun, hbob, fun hadmitted => ?_⟩
  obtain ⟨d, hset, howner⟩ := hadmitted.founded_of_noInvite hlog
  have hada : d.get? "listOwnerId" = some (.str "ada") := hlog _ hset
  rw [howner] at hada
  simp at hada

end GottaGo
