/-
GottaGo.App.Bystanders — what the app does not do to a user who takes no
part.

`writes_allowed` is the statement that the app stays within the rules of
`App/Rules`: every write of every run is allowed to somebody who was signed in
on a page that there has been, or to anybody. It rests on nothing that the
database checks. A card writes the ids that stand in the invite it was
built from, and a listener those of the profile it was handed, so it is
the documents that have to be right, at every moment of the run.

What follows is said of a user `v` who takes no part: nobody is signed in as
`v`, and no page shows `v`. From the empty database nothing that mentions `v`
appears (`unknown_of_no_part`), and in any database the document of `v` stays
as it is (`bystander_untouched`). It is not enough that nobody is signed in as
`v`: on a page that still shows `v`, somebody else changes the document of `v`
(`page_of_another`).
-/
import GottaGo.Membership.Provenance

namespace GottaGo

open GottaGo.Async GottaGo.Async.Pool GottaGo.Firestore

variable {sees : String → String → Prop} {c c' : Pool AppState (App Unit)}

/-- Every write of a run of the app is one that the rules allow. -/
theorem writes_allowed (h : AppRun sees ⟨{ store := ∅ }, []⟩ c) :
    ∀ w ∈ c.state.log, Allowed sees (InLog c.state) w :=
  fun _ hw => h.allowed hw

/-- Bob was signed in while the page was Ada's. He has a list of hers, and what
he wrote was allowed to him on that page. -/
theorem writes_allowed_bob : ∃ c : Pool AppState (App Unit),
    (HasList c.state.store "bob" "rome" ∧ OwnedBy c.state.store "rome" "ada") ∧
      ∀ w ∈ c.state.log, Allowed AdaOrBob (InLog c.state) w := by
  obtain ⟨c, hrun, hlist, -⟩ := bobOnAdasPage_run
  exact ⟨c, hlist, writes_allowed hrun⟩

/-! ## Users who take no part -/

/-- The database knows nothing of `v`. -/
structure Unknown (s : Store Path) (v : String) : Prop where
  user : s.get (.users v) = none
  inbox : ∀ id, s.get (.invites v id) = none
  names : ∀ n, ¬ Registered s n v
  lists : ∀ l, ¬ NamesUser s l v

section Rules

variable {committed : Write Path → Prop} {w : Write Path} {v : String}

/-- The document of a user is written on the user's page, or by who is signed in
as the user. -/
theorem Allowed.takesPart (h : Allowed sees committed w) (hpath : w.path = .users v) :
    TakesPart sees v := by
  rcases h with hanyone | ⟨a, p, hs, hmay⟩
  · cases w <;> simp only [Write.path] at hpath <;> subst hpath <;> exact hanyone.elim
  · cases w with
    | set q d =>
      simp only [Write.path] at hpath
      subst hpath
      exact hmay ▸ ⟨a, .inr hs⟩
    | update q fs =>
      simp only [Write.path] at hpath
      subst hpath
      rcases hmay with rfl | ⟨rfl, -⟩
      · exact ⟨a, .inr hs⟩
      · exact ⟨p, .inl hs⟩
    | delete q =>
      simp only [Write.path] at hpath
      subst hpath
      exact hmay ▸ ⟨a, .inr hs⟩

/-- A name is registered on the page of the user whose name it is. -/
theorem Allowed.registers {n : String} {d : Doc}
    (h : Allowed sees committed (.set (.usernames n) d))
    (hd : d.get? "userId" = some (.str v)) : TakesPart sees v := by
  rcases h with hanyone | ⟨a, p, hs, hmay⟩
  · exact hanyone.elim
  · have heq : some (Value.str v) = some (.str p) := hd.symm.trans hmay
    obtain rfl : v = p := by simpa using heq
    exact ⟨a, .inr hs⟩

/-- A name is given up, but never handed to another user by an update. -/
theorem not_allowed_update {n : String} {fs : List (String × FieldWrite)} :
    ¬ Allowed sees committed (.update (.usernames n) fs) := by
  rintro (hanyone | ⟨a, p, -, hmay⟩)
  · exact hanyone
  · exact hmay

end Rules

/-- A run from the empty database leaves nothing that mentions a user who took
no part. -/
theorem unknown_of_no_part (h : AppRun sees ⟨{ store := ∅ }, []⟩ c) (v : String)
    (hv : ¬ TakesPart sees v) : Unknown c.state.store v := by
  have hstore : Typed (AppSchema sees (InLog c.state)) c.state.store := h.obeys_of_empty.1.store
  have hallowed : ∀ w, InLog c.state w → Allowed sees (InLog c.state) w :=
    fun _ hw => h.allowed hw
  constructor
  case user =>
    rw [h.obeys_of_empty.2.get_eq fun w hw hpath => hv (hw.takesPart hpath), Store.get_empty]
  case inbox =>
    intro id
    cases hd : c.state.store.get (.invites v id) with
    | none => rfl
    | some d =>
      obtain ⟨hset, -⟩ := hstore _ d hd
      rcases hallowed _ hset with hanyone | ⟨a, p, hs, invite, -, hput⟩
      · exact hanyone.elim
      · exact absurd (hput.takesPart hs hallowed) hv
  case names =>
    intro n hn
    obtain ⟨d, hd, huser⟩ := Option.bind_eq_some_iff.mp hn
    obtain ⟨hset, -⟩ := hstore _ d hd
    exact hv (HasRegistered.takesPart ⟨n, d, hset, huser⟩ hallowed)
  case lists => exact fun l hl => hv ((hl.admitted hstore).takesPart hallowed)

theorem carol_takes_no_part : ¬ TakesPart AdaOrBob "carol" := by
  rintro ⟨u, ⟨hcarol, -⟩ | ⟨-, hcarol⟩⟩
  · simp at hcarol
  · simp at hcarol

/-- Carol has taken no part in it. -/
theorem unknown_carol : ∃ c : Pool AppState (App Unit),
    HasList c.state.store "bob" "rome" ∧ Unknown c.state.store "carol" := by
  obtain ⟨c, hrun, ⟨hbob, -⟩, -⟩ := bobOnAdasPage_run
  exact ⟨c, hbob, unknown_of_no_part hrun "carol" carol_takes_no_part⟩

/-- In any database that the app can read, a run leaves the document of a user
who took no part, and hands the user no name. -/
theorem bystander_untouched (h : AppRun sees c c') (hts : c.Quiet)
    (h0 : AllDecode c.state.store) (hl : Listening sees c.state) (v : String)
    (hv : ¬ TakesPart sees v) :
    c'.state.store.get (.users v) = c.state.store.get (.users v) ∧
      ∀ n, Registered c'.state.store n v → Registered c.state.store n v := by
  have hchanged := (h.obeys_of_decode hts h0 hl).2
  refine ⟨hchanged.get_eq fun w hw hpath => hv (hw.takesPart hpath), fun n hn => ?_⟩
  -- That a name is the user's only if it was is a schema that the rules keep.
  refine hchanged.keeps (fun p snap => p = .usernames n →
    snap.bind (fun d => d.get? "userId") = some (.str v) → Registered c.state.store n v)
    (fun w hw => ?_) (fun p hp hreg => ?_) (.usernames n) rfl hn
  · cases w with
    | set p d =>
      rintro rfl hd
      exact absurd (hw.registers hd) hv
    | update p fs =>
      rintro d - rfl
      exact absurd hw not_allowed_update
    | delete p =>
      intro _ hd
      cases hd
  · subst hp
    exact hreg

/-- Carol has signed up, and has a name. -/
def carolDb : AppState :=
  { store := Store.ofList [
      (.users "carol", Doc.ofList (signUpUser "carol" "Carol" none).toDocument),
      (.usernames "carol", Doc.ofList [("userId", .str "carol")])] }

theorem carolDb_allDecode : AllDecode carolDb.store := by
  intro p d hd
  rw [carolDb, Store.get_ofList_cons, Store.get_ofList_cons, Store.get_ofList_nil] at hd
  split at hd
  · next hp =>
    subst hp
    cases hd
    have hdoc : AppDoc (fun _ _ => True) (fun _ => True) (.users "carol")
        (Doc.ofList (signUpUser "carol" "Carol" none).toDocument) :=
      (ownUser_signUpUser "carol" "Carol" none).document fun _ _ =>
        get?_ofList_of_mem (User.toDocument_nodup _)
    exact hdoc.decodes
  · split at hd
    · next hp =>
      subst hp
      cases hd
      exact ⟨"carol", by simp⟩
    · cases hd

/-- Ada and Bob do what they did, and Carol is as she was. -/
theorem bystander_untouched_carol : ∃ c : Pool AppState (App Unit),
    HasList c.state.store "bob" "rome" ∧
      c.state.store.get (.users "carol") = carolDb.store.get (.users "carol") ∧
        ∀ n, Registered c.state.store n "carol" → Registered carolDb.store n "carol" := by
  have hplay : ∃ c : Pool AppState (App Unit), AppRun AdaOrBob ⟨carolDb, []⟩ c ∧
      HasList c.state.store "bob" "rome" :=
    AppRun.exists_playMoves bobOnAdasPage (by decide)
  obtain ⟨c, hrun, hbob⟩ := hplay
  exact ⟨c, hbob, bystander_untouched hrun (by simp [Quiet]) carolDb_allDecode
    ⟨nofun, nofun⟩ "carol" carol_takes_no_part⟩

/-- Nobody is signed in as Carol, and on her page Bob changes her name. -/
theorem page_of_another : ∃ c : Pool AppState (App Unit),
    AppRun (fun a p => a = "bob" ∧ p = "carol") ⟨carolDb, []⟩ c ∧
      c.state.store.get (.users "carol") ≠ carolDb.store.get (.users "carol") :=
  AppRun.exists_playMoves
    [.start (.session ⟨some { uid := "bob" }, "carol", .changeName "Bob"⟩), .adv 0 {}, .adv 0 {}]
    (by decide)

end GottaGo
