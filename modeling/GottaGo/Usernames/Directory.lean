/-
GottaGo.Usernames.Directory — user names and the directory of names.

`HasName s u n` is a non-empty name in a user's document, `Registered s
n u` an entry of the directory. The directory is sound when every name a
user has is registered to the user; then no two users have the same
name (`Directory.unique`).

A change of name goes through states in which that is not so for the user
who changes: the old name is deregistered first, and the user's document
is written last. `SoundBut busy` is soundness for all users but those in
`busy`, and the lemmas say under which condition each kind of write keeps
it.
-/
import GottaGo.Repository.DatabaseTheorems

namespace GottaGo

open GottaGo.Async GottaGo.Firestore DatabaseRepository

/-- User `u` has the non-empty name `n`. -/
def HasName (s : Store Path) (u n : String) : Prop :=
  s.field (.users u) "userName" = some (.str n) ∧ n ≠ ""

/-- Name `n` is registered to user `u`. -/
def Registered (s : Store Path) (n u : String) : Prop :=
  s.field (.usernames n) "userId" = some (.str u)

instance (s : Store Path) (u n : String) : Decidable (HasName s u n) :=
  inferInstanceAs (Decidable (_ ∧ _))

instance (s : Store Path) (n u : String) : Decidable (Registered s n u) :=
  inferInstanceAs (Decidable (_ = _))

/-- Every user but the busy ones has a name that is registered to the
user, or none. -/
def SoundBut (busy : String → Prop) (s : Store Path) : Prop :=
  ∀ u n, HasName s u n → Registered s n u ∨ busy u

/-- Every name a user has is registered to the user. -/
def Directory (s : Store Path) : Prop := ∀ u n, HasName s u n → Registered s n u

theorem soundBut_none {s : Store Path} : SoundBut (fun _ => False) s ↔ Directory s := by
  unfold SoundBut Directory
  simp

theorem SoundBut.mono {busy busy' : String → Prop} {s : Store Path}
    (h : SoundBut busy s) (hb : ∀ u, busy u → busy' u) : SoundBut busy' s :=
  fun u n hn => (h u n hn).imp_right (hb u)

theorem Registered.unique {s : Store Path} {n u v : String} (hu : Registered s n u)
    (hv : Registered s n v) : u = v := by
  unfold Registered at hu hv
  rw [hu] at hv
  simpa using hv

theorem Registered.get_ne_none {s : Store Path} {n u : String} (h : Registered s n u) :
    s.get (.usernames n) ≠ none := by
  intro hn
  unfold Registered Store.field at h
  rw [hn] at h
  cases h

/-- A user without a document has no name. -/
theorem not_hasName {s : Store Path} {u n : String} (h : s.get (.users u) = none) :
    ¬ HasName s u n := by
  intro hn
  unfold HasName Store.field at hn
  rw [h] at hn
  cases hn.1

/-- In a sound directory no two users have the same name. -/
theorem Directory.unique {s : Store Path} (h : Directory s) {u v n : String}
    (hu : HasName s u n) (hv : HasName s v n) : u = v :=
  (h u n hu).unique (h v n hv)

/-! ## Writes to the directory -/

section DirectoryWrites

variable {s : Store Path} {busy : String → Prop} {n u : String}

theorem hasName_of_name_write {w : Write Path} {s' : Store Path}
    (h : w.apply s = some s') (hw : w.path = .usernames n) (v k : String) :
    HasName s' v k ↔ HasName s v k := by
  have hget : s'.get (.users v) = s.get (.users v) :=
    w.get_of_ne h (by rw [hw]; exact Path.noConfusion)
  unfold HasName
  rw [Store.field_congr hget]

theorem registered_put (v k : String) :
    Registered (s.put (.usernames n) (registration u)) k v ↔
      if k = n then v = u else Registered s k v := by
  unfold Registered
  by_cases hk : k = n
  · subst hk
    rw [if_pos rfl, Store.field_eq (Store.get_put_self s _ _), registration,
      Doc.get?_ofList]
    simp [eq_comm]
  · have hne : Path.usernames k ≠ .usernames n := by simpa using hk
    rw [if_neg hk, Store.field_congr (s.get_put_of_ne _ hne)]

theorem registered_del (v k : String) :
    Registered (s.del (.usernames n)) k v ↔ k ≠ n ∧ Registered s k v := by
  unfold Registered
  by_cases hk : k = n
  · subst hk
    unfold Store.field
    rw [Store.get_del_self]
    simp
  · have hne : Path.usernames k ≠ .usernames n := by simpa using hk
    rw [Store.field_congr (s.get_del_of_ne hne)]
    simp [hk]

/-- A name may be registered if its entry is free or already the user's. -/
theorem SoundBut.register (h : SoundBut busy s)
    (hfree : s.get (.usernames n) = none ∨ Registered s n u) :
    SoundBut busy (s.put (.usernames n) (registration u)) := by
  intro v k hv
  rw [hasName_of_name_write (Write.apply_set s _ _) rfl] at hv
  rw [registered_put]
  by_cases hk : k = n
  · subst hk
    rw [if_pos rfl]
    rcases h v k hv with hreg | hbusy
    · rcases hfree with hnone | hown
      · exact absurd hnone hreg.get_ne_none
      · exact .inl (hreg.unique hown)
    · exact .inr hbusy
  · rw [if_neg hk]
    exact h v k hv

/-- A name may be deregistered if its entry is free or the user's; the user
is busy from then on. -/
theorem SoundBut.deregister (h : SoundBut busy s)
    (hown : s.get (.usernames n) = none ∨ Registered s n u) :
    SoundBut (fun v => busy v ∨ v = u) (s.del (.usernames n)) := by
  intro v k hv
  rw [hasName_of_name_write (Write.apply_delete s _) rfl] at hv
  rw [registered_del]
  rcases h v k hv with hreg | hbusy
  · by_cases hk : k = n
    · subst hk
      rcases hown with hnone | hown
      · exact absurd hnone hreg.get_ne_none
      · exact .inr (.inr (hreg.unique hown))
    · exact .inl ⟨hk, hreg⟩
  · exact .inr (.inl hbusy)

end DirectoryWrites

/-! ## Writes to a user -/

section UserWrites

variable {s s' : Store Path} {busy : String → Prop} {u : String}

theorem registered_of_user_write {w : Write Path} (h : w.apply s = some s')
    (hw : w.path = .users u) (n v : String) :
    Registered s' n v ↔ Registered s n v := by
  have hget : s'.get (.usernames n) = s.get (.usernames n) :=
    w.get_of_ne h (by rw [hw]; exact Path.noConfusion)
  unfold Registered
  rw [Store.field_congr hget]

theorem hasName_of_ne {w : Write Path} (h : w.apply s = some s')
    (hw : w.path = .users u) {v : String} (hv : v ≠ u) (n : String) :
    HasName s' v n ↔ HasName s v n := by
  have hget : s'.get (.users v) = s.get (.users v) :=
    w.get_of_ne h (by rw [hw]; simpa using hv)
  unfold HasName
  rw [Store.field_congr hget]

/-- The user's document may be written if the name it is left with is
registered to the user; the user is not busy any more. -/
theorem SoundBut.userWrite {w : Write Path} (h : SoundBut busy s)
    (hw : w.apply s = some s') (hpath : w.path = .users u)
    (hname : ∀ n, HasName s' u n → Registered s n u) :
    SoundBut (fun v => busy v ∧ v ≠ u) s' := by
  intro v n hv
  rw [registered_of_user_write hw hpath]
  by_cases hvu : v = u
  · subst hvu
    exact .inl (hname n hv)
  · rw [hasName_of_ne hw hpath hvu] at hv
    exact (h v n hv).imp_right fun hb => ⟨hb, hvu⟩

/-- The name in a user's document after `createUser`. -/
theorem hasName_createWrite {user : User} (h : (createWrite u user).apply s = some s')
    (n : String) : HasName s' u n ↔ user.userName = some n ∧ n ≠ "" := by
  cases h
  unfold HasName
  rw [Store.field_eq (Store.get_put_self s _ _), Doc.get?_ofList]
  cases hn : user.userName <;>
    simp [User.toDocument, List.lookup_cons, hn, Value.ofString?]

/-- The name in a user's document after `updateUser`. -/
theorem hasName_updateWrite {user : User} (h : (updateWrite u user).apply s = some s')
    (n : String) : HasName s' u n ↔ user.userName = some n ∧ n ≠ "" := by
  obtain ⟨d, -, rfl⟩ := Write.apply_update_eq_some h
  have hkeys : ((putAll user.toDocument).map Prod.fst).Nodup := by
    simp [putAll, User.toDocument]
  have hmem : ("userName", FieldWrite.put (Value.ofString? user.userName)) ∈
      putAll user.toDocument := by
    simp [putAll, User.toDocument]
  unfold HasName
  rw [Store.field_eq (Store.get_put_self s _ _), Doc.get?_update_of_mem d hkeys hmem]
  cases hn : user.userName <;> simp [FieldWrite.apply, Value.ofString?]

end UserWrites

end GottaGo
