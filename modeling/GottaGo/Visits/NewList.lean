/-
GottaGo.Visits.NewList — saving a place to a list that is being created.

The dialog adds `AddList` to one bloc and, when it closes,
`AddPlaceToNewList` to another, with the name of the list. The two handlers
run next to each other: the query by that name may be answered before the
document of the list is written, and it also finds every older list of the
user of that name.

`Saving` is the state of the two handlers and the database; a run is any
order of their requests, none of which fails. Ids that are drawn are new.
The place lands in the new list and nowhere else just when the query comes
after that document, and every older list of the name holds the place
already (`saved_to_new_iff`).
-/
import GottaGo.Async.Events
import GottaGo.Bloc.Handlers
import GottaGo.Repository.ByName

namespace GottaGo

open GottaGo.Async GottaGo.Firestore PlaceListRepository

/-- How far `addPlaceToListByName` has got: it waits for the query, or for
the writes below the lists that are left. -/
inductive ByName where
  | asking
  | writing (left : Finset String)

/-- The handlers of `AddList` and of `AddPlaceToNewList`. -/
structure Saving where
  db : AppState
  creating : App Unit
  adding : ByName := .asking

/-- The next request of `AddList` is answered, drawing `id` if it is for an
id; the query is answered; the write below one of the lists is committed. -/
inductive SaveMove where
  | create (id : String)
  | query
  | write (placeListId docId : String)
  deriving DecidableEq

/-- The list a document belongs to. -/
def Path.ofList? : Path → Option String
  | .placeLists placeListId => some placeListId
  | .places placeListId _ => some placeListId
  | .visitedPlaces placeListId _ => some placeListId
  | _ => none

/-- There has never been a list of this id. -/
def Unused (st : AppState) (placeListId : String) : Prop :=
  placeListId ∉ st.drawn ∧ ∀ p ∈ st.store.keys, p.ofList? ≠ some placeListId

instance (st : AppState) (placeListId : String) : Decidable (Unused st placeListId) :=
  inferInstanceAs (Decidable (_ ∧ _))

theorem Unused.get_eq_none {st : AppState} {placeListId : String} (h : Unused st placeListId)
    {p : Path} (hp : p.ofList? = some placeListId) : st.store.get p = none := by
  cases hget : st.store.get p with
  | none => rfl
  | some d =>
    have hkey : p ∈ st.store.keys := Finmap.mem_keys.mpr (Finmap.mem_of_lookup_eq_some hget)
    exact absurd hp (h.2 p hkey)

namespace Saving

section

variable (firebaseUser : AuthUser) (placeList : PlaceList) (place : Place)

/-- Both events have been added. -/
def start (st : AppState) : Saving :=
  { db := st, creating := SavedListsBloc.addList firebaseUser placeList }

def step (b : Saving) : SaveMove → Option Saving
  | .create id =>
    match b.creating with
    | .ask q k =>
      some { b with
        db := (serve { draw := id } q b.db).2
        creating := k (serve { draw := id } q b.db).1 }
    | _ => none
  | .query =>
    match b.adding with
    | .asking =>
      some { b with
        adding := .writing (listsNamed b.db.store placeList.name firebaseUser.uid) }
    | .writing _ => none
  | .write placeListId docId =>
    match b.adding with
    | .asking => none
    | .writing left =>
      if placeListId ∈ left then
        some { b with
          db := (serve {} (.write (placeWrite place placeListId docId)) b.db).2
          adding := .writing (left.erase placeListId) }
      else none

/-- Ids that are drawn are new. -/
def drawsNew (b : Saving) : SaveMove → Bool
  | .create id =>
    match b.creating with
    | .ask (.newDoc _) _ => Unused b.db id
    | _ => true
  | .query => true
  | .write placeListId docId =>
    place.placeId.isSome || (b.db.store.get (.places placeListId docId)).isNone

end

/-- Both handlers have ended, and every write is committed. -/
def Complete (b : Saving) : Prop := b.creating = .ret () ∧ b.adding = .writing ∅

end Saving

/-- How many requests of `AddList` are answered before the query is. -/
def createsBefore : List SaveMove → Nat
  | [] => 0
  | .create _ :: ms => createsBefore ms + 1
  | .query :: _ => 0
  | .write _ _ :: ms => createsBefore ms

/-- The query is answered after the document of the new list is written: the
id and the document are the first two requests. -/
def QueryAfterList (ms : List SaveMove) : Prop := 2 ≤ createsBefore ms

instance (ms : List SaveMove) : Decidable (QueryAfterList ms) :=
  inferInstanceAs (Decidable (_ ≤ _))

@[simp] theorem createsBefore_query (ms : List SaveMove) :
    createsBefore (ms ++ [.query]) = createsBefore ms := by
  induction ms with
  | nil => rfl
  | cons m ms ih => cases m <;> simp [createsBefore, ih]

@[simp] theorem createsBefore_write (ms : List SaveMove) (placeListId docId : String) :
    createsBefore (ms ++ [.write placeListId docId]) = createsBefore ms := by
  induction ms with
  | nil => rfl
  | cons m ms ih => cases m <;> simp [createsBefore, ih]

theorem createsBefore_create (ms : List SaveMove) (id : String) :
    createsBefore (ms ++ [.create id]) =
      if .query ∈ ms then createsBefore ms else createsBefore ms + 1 := by
  induction ms with
  | nil => rfl
  | cons m ms ih =>
    cases m with
    | create id' =>
      simp only [List.cons_append, createsBefore, ih, List.mem_cons, reduceCtorEq, false_or]
      split <;> rfl
    | query => simp [createsBefore]
    | write placeListId docId =>
      simp only [List.cons_append, createsBefore, ih, List.mem_cons, reduceCtorEq, false_or]

/-! ## What a run keeps -/

section

variable {firebaseUser : AuthUser} {placeList : PlaceList} {place : Place} {st : AppState}

/-- `AddList`, from the id on that is drawn. -/
def drawnFor (firebaseUser : AuthUser) (placeList : PlaceList) (id : String) : App Unit :=
  rethrowing do
    let fields ← Prog.ofExcept (placeList.copyWith { placeListId := some id }).toDocument
    Fire.set (.placeLists id) fields
    Fire.update (.users firebaseUser.uid) [("placeListIds", .arrayUnion [.str id])]

/-- `AddList`, from its writes on. -/
def writtenFor (firebaseUser : AuthUser) (fields : List (String × Value)) (id : String) :
    App Unit :=
  rethrowing do
    Fire.set (.placeLists id) fields
    Fire.update (.users firebaseUser.uid) [("placeListIds", .arrayUnion [.str id])]

/-- `AddList`, from its last write on. -/
def listedFor (firebaseUser : AuthUser) (id : String) : App Unit :=
  rethrowing do
    Fire.update (.users firebaseUser.uid) [("placeListIds", .arrayUnion [.str id])]

theorem drawnFor_cases (firebaseUser : AuthUser) (placeList : PlaceList) (id : String) :
    drawnFor firebaseUser placeList id = .raise .typeError ∨
      ∃ fields, placeList.toDocument = .ok fields ∧
        drawnFor firebaseUser placeList id = writtenFor firebaseUser fields id := by
  have hsame : (placeList.copyWith { placeListId := some id }).toDocument =
      placeList.toDocument := rfl
  rw [drawnFor, hsame]
  cases hf : placeList.toDocument with
  | error e =>
    have he : e = .typeError := by
      unfold PlaceList.toDocument at hf
      split at hf <;> cases hf
      rfl
    subst he
    exact .inl rfl
  | ok fields => exact .inr ⟨fields, rfl, rfl⟩

/-- The documents of lists are those of `st`, and that of the new list. -/
def ListsAre (st : AppState) (new : Option (String × Doc)) (s : Store Path) : Prop :=
  ∀ l, s.get (.placeLists l) =
    match new with
    | some (id, d) => if l = id then some d else st.store.get (.placeLists l)
    | none => st.store.get (.placeLists l)

/-- There was no list of this id in `st`. -/
def Clean (st : AppState) (id : String) : Prop :=
  st.store.get (.placeLists id) = none ∧ ∀ q, st.store.get (.places id q) = none

/-- `AddList` after `n` answers. -/
inductive Created (firebaseUser : AuthUser) (placeList : PlaceList) (st : AppState)
    (b : Saving) : Nat → Prop
  | started : b.creating = SavedListsBloc.addList firebaseUser placeList →
      b.db.drawn = st.drawn → ListsAre st none b.db.store → Created firebaseUser placeList st b 0
  | drawn (id : String) : Clean st id → b.db.drawn = id :: st.drawn →
      b.creating = drawnFor firebaseUser placeList id →
      ListsAre st none b.db.store → Created firebaseUser placeList st b 1
  | written (id : String) (fields : List (String × Value)) (n : Nat) : Clean st id →
      b.db.drawn = id :: st.drawn → placeList.toDocument = .ok fields →
      (b.creating.Ended ∨ b.creating = listedFor firebaseUser id) →
      ListsAre st (some (id, Doc.ofList fields)) b.db.store →
      Created firebaseUser placeList st b (n + 2)

/-- It says nothing about what else is stored. -/
theorem Created.congr {b b' : Saving} {n : Nat} (h : Created firebaseUser placeList st b n)
    (hcreating : b'.creating = b.creating) (hdrawn : b'.db.drawn = b.db.drawn)
    (hlists : ∀ l, b'.db.store.get (.placeLists l) = b.db.store.get (.placeLists l)) :
    Created firebaseUser placeList st b' n := by
  cases h with
  | started hc hd hl =>
    exact .started (hcreating.trans hc) (hdrawn.trans hd) fun l => (hlists l).trans (hl l)
  | drawn id hu hd hc hl =>
    exact .drawn id hu (hdrawn.trans hd) (hcreating.trans hc) fun l => (hlists l).trans (hl l)
  | written id fields n hu hd hf hc hl =>
    rw [← hcreating] at hc
    exact .written id fields n hu (hdrawn.trans hd) hf hc fun l => (hlists l).trans (hl l)

/-- A write leaves the other documents, and draws nothing. -/
theorem serve_write_frame {o : Outcome} {w : Write Path} (db : AppState) {p : Path}
    (hp : p ≠ w.path) : (serve o (.write w) db).2.store.get p = db.store.get p ∧
      (serve o (.write w) db).2.drawn = db.drawn := by
  have hans : Answered (.write w) db (serve o (.write w) db).1 (serve o (.write w) db).2 :=
    ⟨o, rfl⟩
  rcases hans.write with ⟨-, hst⟩ | ⟨s, hs, -, hst⟩
  · rw [hst]
    exact ⟨rfl, rfl⟩
  · rw [hst]
    exact ⟨Write.get_of_ne hs hp, rfl⟩

/-- A rethrown answer is an end. -/
theorem ended_rethrown (r : Except Err Unit) :
    (Prog.tryCatch (Prog.ofExcept r) fun e =>
      if e = .firebase then .raise .exception else .raise e : App Unit).Ended := by
  rcases r with e | ⟨⟩
  · by_cases he : e = .firebase <;> simp [Prog.ofExcept, Prog.tryCatch, he, Prog.Ended]
  · trivial

/-- What an answer to `AddList` leaves as it is. -/
structure Frame (b b' : Saving) (n : Nat) : Prop where
  adding : b'.adding = b.adding
  places : ∀ l q, b'.db.store.get (.places l q) = b.db.store.get (.places l q)
  drawn : 1 ≤ n → b'.db.drawn = b.db.drawn

theorem Created.create {b b' : Saving} {n : Nat} (h : Created firebaseUser placeList st b n)
    {id : String} (hnew : b.drawsNew place (.create id) = true)
    (hclean : Unused b.db id → ∀ q, st.store.get (.places id q) = none)
    (hstep : b.step firebaseUser placeList place (.create id) = some b') :
    Created firebaseUser placeList st b' (n + 1) ∧ Frame b b' n := by
  obtain ⟨db, creating, adding⟩ := b
  cases h with
  | started hc hd hl =>
    cases hc
    cases hstep
    have hnew : Unused db id := of_decide_eq_true hnew
    have hlist : st.store.get (.placeLists id) = none :=
      (hl id).symm.trans (hnew.get_eq_none rfl)
    exact ⟨.drawn id ⟨hlist, hclean hnew⟩ (congrArg (id :: ·) hd) rfl hl, rfl, fun _ _ => rfl,
      fun h => absurd h (by decide)⟩
  | drawn id' hu hd hc hl =>
    rcases drawnFor_cases firebaseUser placeList id' with heq | ⟨fields, hf, heq⟩
    · rw [heq] at hc
      cases hc
      cases hstep
    · rw [heq] at hc
      cases hc
      cases hstep
      refine ⟨.written id' fields 0 hu hd hf (.inr rfl) ?_, rfl, ?_, fun _ => rfl⟩
      · intro l
        show (db.store.put (.placeLists id') (Doc.ofList fields)).get (.placeLists l) =
          if l = id' then some (Doc.ofList fields) else st.store.get (.placeLists l)
        rw [Store.get_put, hl l]
        simp
      · intro l q
        exact Store.get_put_of_ne _ _ Path.noConfusion
  | written id' fields n hu hd hf hc hl =>
    rcases hc with hc | hc
    · cases creating with
      | ask q k => exact hc.elim
      | ret a => cases hstep
      | raise e => cases hstep
    · cases hc
      cases hstep
      have hframe := fun p => serve_write_frame (o := { draw := id })
        (w := .update (.users firebaseUser.uid) [("placeListIds", .arrayUnion [.str id'])]) db
        (p := p)
      refine ⟨.written id' fields (n + 1) hu ((hframe (.places "" "") Path.noConfusion).2.trans hd)
        hf (.inl (ended_rethrown _)) fun l => ?_, rfl, fun l q => ?_, fun _ => ?_⟩
      · exact (hframe (.placeLists l) Path.noConfusion).1.trans (hl l)
      · exact (hframe (.places l q) Path.noConfusion).1
      · exact (hframe (.places "" "") Path.noConfusion).2

/-- The places of a list are those of `st`. -/
def Unchanged (st : AppState) (s : Store Path) (l : String) : Prop :=
  ∀ q, s.get (.places l q) = st.store.get (.places l q)

/-- The places of a list are those of `st` and the place, which was new there
if it has no id. -/
def Wrote (place : Place) (st : AppState) (s : Store Path) (l : String) : Prop :=
  ∃ q, place.placeId.getD q = q ∧ (place.placeId = none → st.store.get (.places l q) = none) ∧
    s.get (.places l q) = some (Doc.ofList place.toDocument) ∧
    ∀ q', q' ≠ q → s.get (.places l q') = st.store.get (.places l q')

/-- The list holds the place in `st`. -/
def HoldsPlace (place : Place) (st : AppState) (l : String) : Prop :=
  ∃ q, place.placeId = some q ∧
    st.store.get (.places l q) = some (Doc.ofList place.toDocument)

/-- The lists the query finds: older ones of the name, and the new one if it
is there by then and has the user for its owner. -/
def Found (firebaseUser : AuthUser) (placeList : PlaceList) (st : AppState)
    (ms : List SaveMove) (b : Saving) (l : String) : Prop :=
  l ∈ listsNamed st.store placeList.name firebaseUser.uid ∨
    QueryAfterList ms ∧ placeList.listOwnerId = firebaseUser.uid ∧ b.db.drawn = l :: st.drawn

/-- `AddPlaceToNewList` after the moves `ms`, `n` of them answers to
`AddList`. -/
inductive Added (firebaseUser : AuthUser) (placeList : PlaceList) (place : Place)
    (st : AppState) (ms : List SaveMove) (n : Nat) (b : Saving) : Prop
  | asking : b.adding = .asking → .query ∉ ms → createsBefore ms = n →
      (∀ l, Unchanged st b.db.store l) → Added firebaseUser placeList place st ms n b
  | writing (found left : Finset String) : b.adding = .writing left → .query ∈ ms →
      createsBefore ms ≤ n → left ⊆ found →
      (∀ l, l ∈ found ↔ Found firebaseUser placeList st ms b l) →
      (∀ l, l ∉ found ∨ l ∈ left → Unchanged st b.db.store l) →
      (∀ l ∈ found, l ∉ left → Wrote place st b.db.store l) →
      Added firebaseUser placeList place st ms n b

/-- The new place under an unused id was not there before either. -/
theorem Added.clean {ms : List SaveMove} {n : Nat} {b : Saving}
    (h : Added firebaseUser placeList place st ms n b) {id : String} (hid : Unused b.db id)
    (q : String) : st.store.get (.places id q) = none := by
  have hnone : ∀ q, b.db.store.get (.places id q) = none := fun q => hid.get_eq_none rfl
  have hunchanged : Unchanged st b.db.store id := by
    cases h with
    | asking _ _ _ hall => exact hall id
    | writing found left _ _ _ _ _ hsame hwrote =>
      by_cases hmem : id ∉ found ∨ id ∈ left
      · exact hsame id hmem
      · simp only [not_or, not_not] at hmem
        obtain ⟨q, -, -, hget, -⟩ := hwrote id hmem.1 hmem.2
        rw [hnone q] at hget
        cases hget
  exact (hunchanged q).symm.trans (hnone q)

theorem Added.create {ms : List SaveMove} {n : Nat} {b b' : Saving}
    (h : Added firebaseUser placeList place st ms n b) (hframe : Frame b b' n) (id : String) :
    Added firebaseUser placeList place st (ms ++ [.create id]) (n + 1) b' := by
  have hsame : ∀ l, Unchanged st b.db.store l → Unchanged st b'.db.store l :=
    fun l hl q => (hframe.places l q).trans (hl q)
  cases h with
  | asking hadding hnot hcount hall =>
    refine .asking (hframe.adding.trans hadding) (by simpa using hnot) ?_
      fun l => hsame l (hall l)
    rw [createsBefore_create, if_neg hnot, hcount]
  | writing found left hadding hquery hle hsub hfound hun hwrote =>
    have hcount : createsBefore (ms ++ [.create id]) = createsBefore ms := by
      rw [createsBefore_create, if_pos hquery]
    refine .writing found left (hframe.adding.trans hadding)
      (List.mem_append_left _ hquery) (by omega) hsub ?_ (fun l hl => hsame l (hun l hl)) ?_
    · intro l
      rw [hfound, Found, Found, QueryAfterList, QueryAfterList, hcount]
      by_cases hafter : 2 ≤ createsBefore ms
      · rw [hframe.drawn (by omega)]
      · simp [hafter]
    · intro l hl hleft
      obtain ⟨q, hq, hnone, hget, hother⟩ := hwrote l hl hleft
      exact ⟨q, hq, hnone, (hframe.places l q).trans hget,
        fun q' hq' => (hframe.places l q').trans (hother q' hq')⟩

/-- The query finds the new list just when it is the user's. -/
theorem named_toDocument {fields : List (String × Value)} (h : placeList.toDocument = .ok fields)
    (userId : String) :
    named placeList.name userId (Doc.ofList fields) = true ↔ placeList.listOwnerId = userId := by
  unfold PlaceList.toDocument at h
  split at h
  · cases h
  · cases h
    simp [named, List.lookup_cons]

/-- What the query finds after `n` answers to `AddList`. -/
theorem Created.mem_listsNamed_iff {n : Nat} {b : Saving}
    (h : Created firebaseUser placeList st b n) (l : String) :
    l ∈ listsNamed b.db.store placeList.name firebaseUser.uid ↔
      l ∈ listsNamed st.store placeList.name firebaseUser.uid ∨
        2 ≤ n ∧ placeList.listOwnerId = firebaseUser.uid ∧ b.db.drawn = l :: st.drawn := by
  rw [mem_listsNamed, mem_listsNamed]
  cases h with
  | started _ _ hl => simp [hl l]
  | drawn _ _ _ _ hl => simp [hl l]
  | written id fields n hu hd hf _ hl =>
    have hget := hl l
    dsimp only at hget
    rw [hget, hd]
    by_cases hid : l = id
    · subst hid
      simp [named_toDocument hf, hu.1]
    · simp [hid, Ne.symm hid]

theorem Added.query {ms : List SaveMove} {n : Nat} {b b' : Saving}
    (h : Added firebaseUser placeList place st ms n b)
    (hcreated : Created firebaseUser placeList st b n)
    (hstep : b.step firebaseUser placeList place .query = some b') :
    Added firebaseUser placeList place st (ms ++ [.query]) n b' := by
  cases h with
  | writing found left hadding =>
    simp [Saving.step, hadding] at hstep
  | asking hadding hnot hcount hall =>
    simp only [Saving.step, hadding, Option.some.injEq] at hstep
    subst hstep
    refine .writing (listsNamed b.db.store placeList.name firebaseUser.uid) _ rfl (by simp)
      (by simp [hcount]) (Finset.Subset.refl _) ?_ (fun l _ => hall l) ?_
    · intro l
      rw [hcreated.mem_listsNamed_iff, Found, QueryAfterList, createsBefore_query, hcount]
    · intro l hl hleft
      exact absurd hl hleft

theorem Added.write {ms : List SaveMove} {n : Nat} {b b' : Saving}
    (h : Added firebaseUser placeList place st ms n b) {placeListId docId : String}
    (hnew : b.drawsNew place (.write placeListId docId) = true)
    (hstep : b.step firebaseUser placeList place (.write placeListId docId) = some b') :
    Added firebaseUser placeList place st (ms ++ [.write placeListId docId]) n b' := by
  cases h with
  | asking hadding => simp [Saving.step, hadding] at hstep
  | writing found left hadding hquery hle hsub hfound hun hwrote =>
    simp only [Saving.step, hadding] at hstep
    split at hstep
    · next hleft =>
      cases hstep
      have hput : ∀ p, (serve {} (.write (placeWrite place placeListId docId)) b.db).2.store.get p =
          if p = .places placeListId (place.placeId.getD docId) then
            some (Doc.ofList place.toDocument) else b.db.store.get p :=
        fun p => Store.get_put b.db.store _ p _
      refine .writing found (left.erase placeListId) rfl (List.mem_append_left _ hquery) ?_
        ((Finset.erase_subset _ _).trans hsub) ?_ ?_ ?_
      · simpa using hle
      · intro l
        rw [hfound, Found, Found, QueryAfterList, QueryAfterList, createsBefore_write]
        rfl
      · intro l hl q
        have hother : l ≠ placeListId := by
          rintro rfl
          rcases hl with hl | hl
          · exact hl (hsub hleft)
          · exact Finset.notMem_erase l left hl
        rw [hput, if_neg fun h => hother (Path.places.inj h).1]
        exact hun l (hl.imp_right Finset.mem_of_mem_erase) q
      · intro l hl hne
        by_cases hself : l = placeListId
        · subst hself
          have hbefore := hun l (.inr hleft)
          refine ⟨place.placeId.getD docId, ?_, fun hnone => ?_, ?_, fun q' hq' => ?_⟩
          · cases place.placeId <;> rfl
          · rw [← hbefore]
            simpa [Saving.drawsNew, hnone] using hnew
          · rw [hput, if_pos rfl]
          · rw [hput, if_neg fun h => hq' (Path.places.inj h).2]
            exact hbefore q'
        · obtain ⟨q, hq, hnone, hget, hkeep⟩ :=
            hwrote l hl fun h => hne (Finset.mem_erase.mpr ⟨hself, h⟩)
          refine ⟨q, hq, hnone, ?_, fun q' hq' => ?_⟩
          · rw [hput, if_neg fun h => hself (Path.places.inj h).1]
            exact hget
          · rw [hput, if_neg fun h => hself (Path.places.inj h).1]
            exact hkeep q' hq'
    · cases hstep

/-! ## The end of a run -/

/-- Where the place was written, nothing has changed just when it was there
already. -/
theorem Wrote.unchanged_iff {s : Store Path} {l : String} (h : Wrote place st s l) :
    Unchanged st s l ↔ HoldsPlace place st l := by
  obtain ⟨q, hq, hnone, hget, hother⟩ := h
  constructor
  · intro hsame
    have hst := (hsame q).symm.trans hget
    cases hp : place.placeId with
    | none =>
      rw [hnone hp] at hst
      cases hst
    | some q' =>
      rw [hp] at hq
      have hq : q' = q := hq
      exact ⟨q, hq ▸ hp, hst⟩
  · rintro ⟨q', hp, hst⟩ p
    rw [hp] at hq
    have hq : q' = q := hq
    subst hq
    by_cases heq : p = q'
    · rw [heq, hget, hst]
    · exact hother p heq

/-- The other handler does not get on with `AddList`. -/
theorem Created.others {n : Nat} {b b' : Saving} (h : Created firebaseUser placeList st b n)
    {m : SaveMove} (hm : ∀ id, m ≠ .create id)
    (hstep : b.step firebaseUser placeList place m = some b') :
    Created firebaseUser placeList st b' n := by
  cases m with
  | create id => exact absurd rfl (hm id)
  | query =>
    simp only [Saving.step] at hstep
    split at hstep
    · cases hstep
      exact h.congr rfl rfl fun _ => rfl
    · cases hstep
  | write placeListId docId =>
    simp only [Saving.step] at hstep
    split at hstep
    · cases hstep
    · split at hstep
      · cases hstep
        exact h.congr rfl rfl fun l => (serve_write_frame b.db Path.noConfusion).1
      · cases hstep

/-- What every run keeps. -/
theorem run_invariant {ms : List SaveMove} {b : Saving}
    (h : Events.replay (Saving.step firebaseUser placeList place) (Saving.drawsNew place)
      (Saving.start firebaseUser placeList st) ms = some b) :
    ∃ n, Created firebaseUser placeList st b n ∧ Added firebaseUser placeList place st ms n b := by
  refine Events.replay_history (J := fun ms b => ∃ n, Created firebaseUser placeList st b n ∧
    Added firebaseUser placeList place st ms n b) h ?_ ?_
  · exact ⟨0, .started rfl rfl fun _ => rfl, .asking rfl (by simp) rfl fun _ _ => rfl⟩
  · rintro ms b m b' ⟨n, hcreated, hadded⟩ hnew hstep
    cases m with
    | create id =>
      obtain ⟨hcreated', hframe⟩ := hcreated.create hnew hadded.clean hstep
      exact ⟨n + 1, hcreated', hadded.create hframe id⟩
    | query =>
      exact ⟨n, hcreated.others (fun _ => SaveMove.noConfusion) hstep,
        hadded.query hcreated hstep⟩
    | write placeListId docId =>
      exact ⟨n, hcreated.others (fun _ => SaveMove.noConfusion) hstep, hadded.write hnew hstep⟩

/-- The place is in the new list, and the places of no other list have
changed. -/
def OnlyInNew (place : Place) (st : AppState) (s : Store Path) (newId : String) : Prop :=
  (∃ q, place.placeId.getD q = q ∧
    s.get (.places newId q) = some (Doc.ofList place.toDocument)) ∧
    ∀ l, l ≠ newId → Unchanged st s l

/-- Of any run of the two handlers, whatever is stored: once both are
complete, the place is in the new list and no other list has changed just
when the query came after the document of the list was written, the list
has the user for its owner, and every older list of the name that the user
owns holds the place already. -/
theorem saved_to_new_iff {ms : List SaveMove} {b : Saving}
    (h : Events.replay (Saving.step firebaseUser placeList place) (Saving.drawsNew place)
      (Saving.start firebaseUser placeList st) ms = some b) (hdone : b.Complete) :
    ∃ newId, b.db.drawn = newId :: st.drawn ∧
      (OnlyInNew place st b.db.store newId ↔
        QueryAfterList ms ∧ placeList.listOwnerId = firebaseUser.uid ∧
          ∀ l ∈ listsNamed st.store placeList.name firebaseUser.uid, HoldsPlace place st l) := by
  obtain ⟨n, hcreated, hadded⟩ := run_invariant h
  obtain ⟨hended, hempty⟩ := hdone
  cases hcreated with
  | started hc => cases hc.symm.trans hended
  | drawn id _ _ hc =>
    rcases drawnFor_cases firebaseUser placeList id with heq | ⟨fields, -, heq⟩
    · cases (hc.trans heq).symm.trans hended
    · cases (hc.trans heq).symm.trans hended
  | written id fields n hclean hdrawn =>
    refine ⟨id, hdrawn, ?_⟩
    cases hadded with
    | asking hadding => cases hadding.symm.trans hempty
    | writing found left hadding _ _ _ hfound hun hwrote =>
      cases hadding.symm.trans hempty
      have hwrote : ∀ l ∈ found, Wrote place st b.db.store l :=
        fun l hl => hwrote l hl (Finset.notMem_empty l)
      have hunnamed : id ∉ listsNamed st.store placeList.name firebaseUser.uid := by
        intro hmem
        obtain ⟨d, hd, -⟩ := mem_listsNamed.mp hmem
        rw [hclean.1] at hd
        cases hd
      constructor
      · rintro ⟨⟨q, -, hget⟩, hothers⟩
        have hnew : id ∈ found := by
          by_contra hnot
          have hold := (hun id (.inl hnot) q).symm.trans hget
          rw [hclean.2 q] at hold
          cases hold
        rcases (hfound id).mp hnew with hmem | ⟨hafter, howner, -⟩
        · exact absurd hmem hunnamed
        refine ⟨hafter, howner, fun l hl => ?_⟩
        have hne : l ≠ id := by
          rintro rfl
          exact hunnamed hl
        exact (hwrote l ((hfound l).mpr (.inl hl))).unchanged_iff.mp (hothers l hne)
      · rintro ⟨hafter, howner, hholds⟩
        have hnew : id ∈ found := (hfound id).mpr (.inr ⟨hafter, howner, hdrawn⟩)
        obtain ⟨q, hq, -, hget, -⟩ := hwrote id hnew
        refine ⟨⟨q, hq, hget⟩, fun l hne => ?_⟩
        by_cases hl : l ∈ found
        · rcases (hfound l).mp hl with hmem | ⟨-, -, hnewest⟩
          · exact (hwrote l hl).unchanged_iff.mpr (hholds l hmem)
          · rw [hdrawn] at hnewest
            exact absurd (List.cons.inj hnewest).1.symm hne
        · exact hun l (.inl hl)

end

/-! ## Two orders -/

/-- Only the document of `ada`. -/
def adaAlone : AppState :=
  { store := .ofList [(.users "ada", Doc.ofList [("placeListIds", .strs [])])] }

/-- `ada` has a list called Paris, with the Louvre in it. -/
def adaInParis : AppState :=
  { store := .ofList [
      (.users "ada", Doc.ofList [("placeListIds", .strs ["paris"])]),
      (.placeLists "paris", Doc.ofList [("name", .str "Paris"), ("placeCount", .int 0),
        ("listOwnerId", .str "ada"), ("icon", .map []), ("contributorIds", .strs [])]),
      (.places "paris" "louvre", Doc.ofList (Place.toDocument { placeId := some "louvre" }))] }

/-- The handlers of `ada`, who saves the Colosseum to a new list called Rome. -/
def savingRome (st : AppState) (ms : List SaveMove) : Option Saving :=
  Events.replay (Saving.step { uid := "ada" } (createListDialog "ada" "Rome")
    { placeId := some "colosseum" }) (Saving.drawsNew { placeId := some "colosseum" })
    (Saving.start { uid := "ada" } (createListDialog "ada" "Rome") st) ms

/-- The query comes after the document of the list. -/
def listFirst : List SaveMove :=
  [.create "rome", .create "", .query, .write "rome" "", .create ""]

/-- The query comes before it. -/
def queryFirst : List SaveMove := [.query, .create "rome", .create "", .create ""]

/-- The older list has another name, and is left as it is. -/
theorem saved_to_new_rome :
    ∃ b, savingRome adaInParis listFirst = some b ∧ ∃ newId, b.db.drawn = [newId] ∧
      OnlyInNew { placeId := some "colosseum" } adaInParis b.db.store newId := by
  have hrun : ∃ b, savingRome adaInParis listFirst = some b ∧ b.Complete := ⟨_, rfl, rfl, rfl⟩
  obtain ⟨b, hb, hdone⟩ := hrun
  obtain ⟨newId, hnew, hiff⟩ := saved_to_new_iff hb hdone
  have hnone : listsNamed adaInParis.store "Rome" "ada" = ∅ := by decide
  refine ⟨b, hb, newId, hnew, hiff.mpr ⟨by decide, rfl, fun l hl => ?_⟩⟩
  exact absurd (hnone ▸ hl) (Finset.notMem_empty l)

/-- The query finds nothing, and the place is saved nowhere. -/
theorem place_lost :
    ¬ ∀ firebaseUser placeList place st ms b,
      Events.replay (Saving.step firebaseUser placeList place) (Saving.drawsNew place)
        (Saving.start firebaseUser placeList st) ms = some b → b.Complete →
      ∀ newId, b.db.drawn = newId :: st.drawn → OnlyInNew place st b.db.store newId := by
  intro h
  have hrun : ∃ b, savingRome adaAlone queryFirst = some b ∧ b.Complete ∧ b.db.drawn = ["rome"] ∧
      b.db.store.get (.places "rome" "colosseum") = none := ⟨_, rfl, ⟨rfl, rfl⟩, rfl, rfl⟩
  obtain ⟨b, hb, hdone, hdrawn, hnone⟩ := hrun
  obtain ⟨⟨q, hq, hget⟩, -⟩ := h _ _ _ _ _ b hb hdone "rome" hdrawn
  have hq : "colosseum" = q := hq
  rw [← hq, hnone] at hget
  cases hget

end GottaGo
