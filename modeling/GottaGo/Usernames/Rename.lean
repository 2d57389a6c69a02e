/-
GottaGo.Usernames.Rename — a change of user name, moment by moment.

`SettingsBloc.updateUsername` gives up the old name before it registers
the new one and before it writes the user's document, so between its
first and its last write the document shows a name that nobody has
registered. A client who looks the name up in between is told that it is
free (`rename_leaves_free`). `visits` lists the databases that the
handler passes through, whichever of its writes throw.
-/
import GottaGo.Usernames.Directory
import GottaGo.Bloc.Handlers
import GottaGo.Membership.Agreement

namespace GottaGo

open GottaGo.Async GottaGo.Firestore DatabaseRepository

/-- The name in `u`'s document. -/
def Displays (s : Store Path) (u n : String) : Prop :=
  s.field (.users u) "userName" = some (.str n)

instance (s : Store Path) (u n : String) : Decidable (Displays s u n) :=
  inferInstanceAs (Decidable (_ = _))

/-- The name in `u`'s document is registered to `u`. -/
def OwnsName (s : Store Path) (u : String) : Prop :=
  ∀ n, Displays s u n → Registered s n u

/-- Nobody is told that the name of a user who owns it is free. -/
theorem OwnsName.taken {st : AppState} {u n : String} (h : OwnsName st.store u)
    (hn : Displays st.store u n) :
    Prog.eval (serve {}) (checkUsernameAvailability n) st = (.ok false, st) := by
  have hentry := (h n hn).get_ne_none
  have hsome : (st.store.get (.usernames n)).isNone = false := by
    rw [Option.isNone_eq_false_iff, Option.isSome_iff_ne_none]
    exact hentry
  rw [eval_checkUsernameAvailability, hsome]

/-- The handler begins with the deletion of the old name, and ends there if
that throws. -/
theorem updateUsername_first {user : User} {n : String} (hname : user.userName = some n)
    (m : String) : ∃ k, SettingsBloc.updateUsername user m =
      .ask (.write (.delete (.usernames n))) k ∧ k (.error .firebase) = .raise .exception := by
  unfold SettingsBloc.updateUsername
  rw [hname]
  exact ⟨_, rfl, rfl⟩

/-- If the deletion goes through, the document still shows the old name when
a client who looks it up is told that it is free. -/
theorem rename_leaves_free {st : AppState} {user : User} {u n : String}
    (hname : user.userName = some n) (hstored : Displays st.store u n) (m : String)
    {π : Req Path Listener → Outcome}
    (hok : (π (.write (.delete (.usernames n)))).fault = false) :
    ∃ st' ∈ Prog.visits (serveBy π) (SettingsBloc.updateUsername user m) st,
      Displays st'.store u n ∧
        Prog.eval (serve {}) (checkUsernameAvailability n) st' = (.ok true, st') := by
  obtain ⟨k, hprog, -⟩ := updateUsername_first hname m
  have hserve : (serveBy π (.write (.delete (.usernames n))) st).2 =
      st.commit (.delete (.usernames n)) (st.store.del (.usernames n)) := by
    simp [serveBy, serve, hok]
  rw [hprog, Prog.visits_ask, hserve]
  refine ⟨_, List.mem_cons_of_mem _ (Prog.mem_visits_self _ _ _), ?_, ?_⟩
  · unfold Displays
    rw [State.commit_store, Store.field_congr (st.store.get_del_of_ne Path.noConfusion)]
    exact hstored
  · rw [eval_checkUsernameAvailability, State.commit_store, Store.get_del_self]
    rfl

/-- A user keeps an own name at every moment of a rename just when the
first write of the handler, the deletion of the old name, throws. -/
theorem rename_owned_iff {st : AppState} {user : User} {u n : String}
    (hname : user.userName = some n) (hstored : Displays st.store u n)
    (hreg : Registered st.store n u) (m : String) (π : Req Path Listener → Outcome) :
    (∀ st' ∈ Prog.visits (serveBy π) (SettingsBloc.updateUsername user m) st,
        OwnsName st'.store u) ↔
      (π (.write (.delete (.usernames n)))).fault = true := by
  constructor
  · intro h
    by_contra hok
    have hok : (π (.write (.delete (.usernames n)))).fault = false := by simpa using hok
    obtain ⟨st', hvisit, hshown, hfree⟩ := rename_leaves_free hname hstored m hok
    have htaken := (h st' hvisit).taken hshown
    rw [hfree] at htaken
    simp at htaken
  · intro hfault
    obtain ⟨k, hprog, hraise⟩ := updateUsername_first hname m
    have hserve : serveBy π (.write (.delete (.usernames n))) st = (.error .firebase, st) := by
      simp [serveBy, serve, hfault]
    have howned : OwnsName st.store u := by
      intro k hk
      have hsame : some (Value.str n) = some (.str k) := hstored.symm.trans hk
      cases hsame
      exact hreg
    rw [hprog, Prog.visits_ask]
    simpa [hserve, hraise] using howned

/-- `ada` is called `ada`. -/
def adaNamed : Store Path :=
  .ofList [(.users "ada", userDoc "ada" []), (.usernames "ada", registration "ada")]

/-- Her profile. -/
def adasProfile : User where
  id := some "ada"
  userName := some "ada"
  placeListIds := some []

/-- The deletion throws, and she is still called `ada`. -/
theorem rename_owned_ada :
    Displays adaNamed "ada" "ada" ∧
      ∀ st' ∈ Prog.visits (serveBy fun _ => { fault := true })
        (SettingsBloc.updateUsername adasProfile "neo") { store := adaNamed },
        OwnsName st'.store "ada" :=
  ⟨by decide, (rename_owned_iff rfl (by decide) (by decide) "neo" _).mpr rfl⟩

/-- Nothing throws, and between its writes `ada` is free. -/
theorem rename_gap :
    ¬ ∀ (st : AppState) (user : User) (u n m : String) (π : Req Path Listener → Outcome),
      user.id = some u → user.userName = some n → Displays st.store u n →
      Registered st.store n u → st.store.get (.usernames m) = none →
      ∀ st' ∈ Prog.visits (serveBy π) (SettingsBloc.updateUsername user m) st,
        OwnsName st'.store u := by
  intro h
  let st : AppState := { store := adaNamed }
  have hshown : Displays st.store "ada" "ada" := by decide
  have hname : adasProfile.userName = some "ada" := rfl
  let π : Req Path Listener → Outcome := fun _ => {}
  have hok : (π (.write (.delete (.usernames "ada")))).fault = false := rfl
  obtain ⟨st', hvisit, hshown', hfree⟩ := rename_leaves_free hname hshown "neo" hok
  have howned := h st adasProfile "ada" "ada" "neo" π rfl hname hshown
    (by decide) (by decide) st' hvisit
  rw [howned.taken hshown'] at hfree
  simp at hfree

end GottaGo
