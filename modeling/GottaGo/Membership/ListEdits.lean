/-
GottaGo.Membership.ListEdits — editing a list and who is in it.

`EditListDialog` writes every field of the list it was opened with,
`contributorIds` and `listOwnerId` included, while contributors come and
go by transforms of the stored array.

`list_edits_iff`: in a run of edits, additions and removals the owner of
a list never changes (every edit carries the owner it read, and there is
only ever one to read), and the contributors are the ones at the start
with the additions and removals so far, in every state of the run, just
when every edit carries the contributors stored when it is written.
`list_edit_undoes_add` is an edit confirmed after somebody joined.
-/
import GottaGo.Membership.Agreement
import GottaGo.Repository.Footprints

namespace GottaGo

open GottaGo.Async GottaGo.Async.Pool GottaGo.Firestore

/-- The calls of a run: edits of lists, additions and removals. -/
inductive EditStart : AppState → AppState → App Unit → Prop
  | updateSavedLists (st : AppState) (placeListId name : String)
      (icon : Option (List (String × Value))) :
      EditStart st st (editListDialog placeListId name icon)
  | addContributorToList (st : AppState) (placeListId userId : String) :
      EditStart st st (PlaceListRepository.addContributorToList placeListId userId).void
  | removeContributorFromList (st : AppState) (placeList : PlaceList) (userId : String) :
      EditStart st st (PlaceListRepository.removeContributorFromList placeList userId)

/-- What the calls write, for a list `l` whose owner is `owner`. -/
def EditWrite (l : String) (owner : Option Value) (w : Write Path) : Prop :=
  (w.Plain ∧ w ≠ .delete (.placeLists l)) ∧ w.Puts (.placeLists l) "listOwnerId" owner

section Footprints

variable {l : String} {owner : Option Value} {B : Listener → Prop}

theorem editWrite_arrayUnion {p : Path} {f : String} (vs : List Value)
    (hf : f ≠ "listOwnerId") : EditWrite l owner (.update p [(f, .arrayUnion vs)]) := by
  refine ⟨⟨.arrayUnion p f vs, by simp⟩, fun _ w hw => ?_⟩
  simp [Ne.symm hf] at hw

theorem editWrite_arrayRemove {p : Path} {f : String} (vs : List Value)
    (hf : f ≠ "listOwnerId") : EditWrite l owner (.update p [(f, .arrayRemove vs)]) := by
  refine ⟨⟨.arrayRemove p f vs, by simp⟩, fun _ w hw => ?_⟩
  simp [Ne.symm hf] at hw

/-- An edit writes the owner that it read. -/
theorem editWrite_edited {k name : String} {icon : Option (List (String × Value))}
    {snap : Option Doc} {placeList : PlaceList} {fields : List (String × Value)}
    (hsnap : k = l → snap.bind (Doc.get? · "listOwnerId") = owner)
    (hread : PlaceList.fromSnapshot k snap = .ok placeList)
    (hdoc : (placeList.copyWith { name := some name, icon := icon }).toDocument
      = .ok fields) :
    EditWrite l owner (.update (.placeLists k) (putAll fields)) := by
  obtain ⟨hnd, howner⟩ := PlaceList.toDocument_ok hdoc
  refine ⟨⟨.fields _ fields hnd, by simp⟩, fun hk w hw => ?_⟩
  cases hk
  obtain ⟨⟨g, v⟩, hmem, heq⟩ := List.mem_map.mp hw
  cases heq
  obtain ⟨-, d, ids, rfl, -, -, hd⟩ := PlaceList.fromSnapshot_ok hread
  have hv : v = .str placeList.listOwnerId := (howner v).mp hmem
  refine ⟨v, rfl, ?_⟩
  rw [hv, ← hd]
  exact hsnap rfl

theorem editListDialog_footprint (k name : String)
    (icon : Option (List (String × Value))) :
    FootprintIf (Told (.placeLists l) "listOwnerId" owner) (EditWrite l owner) B
      (editListDialog k name icon) := by
  refine FootprintIf.get_bind fun snap htold => ?_
  cases hread : PlaceList.fromSnapshot k snap with
  | error e => trivial
  | ok placeList =>
    have hid : (placeList.copyWith { name := some name, icon := icon }).placeListId
        = some k := (PlaceList.fromSnapshot_ok hread).1
    refine PlaceListRepository.updatePlaceLists_footprint hid fun fields hdoc => ?_
    refine editWrite_edited (fun hk => ?_) hread hdoc
    exact htold (by rw [hk]) snap rfl

theorem EditStart.footprint {st st' : AppState} {t : App Unit}
    (h : EditStart st st' t) :
    st' = st ∧ FootprintIf (Told (.placeLists l) "listOwnerId" owner)
      (EditWrite l owner) B t := by
  cases h with
  | updateSavedLists k name icon => exact ⟨rfl, editListDialog_footprint k name icon⟩
  | addContributorToList k u =>
    exact ⟨rfl, (PlaceListRepository.addContributorToList_footprint
      (fun vs => editWrite_arrayUnion vs (by decide))
      fun uid vs => editWrite_arrayUnion vs (by decide)).void⟩
  | removeContributorFromList placeList u =>
    exact ⟨rfl, PlaceListRepository.removeContributorFromList_footprint
      (fun id vs => editWrite_arrayRemove vs (by decide))
      fun uid vs => editWrite_arrayRemove vs (by decide)⟩

end Footprints

/-- In every state a run enters the list's contributors are those at the
start with the additions and removals so far, and its owner is the one
at the start, just when every edit carries the contributors it finds. -/
theorem list_edits_iff (s : Store Path) (l : String) (c : Pool AppState (App Unit)) :
    Reach (fun d =>
        d.state.store.elemsAt (.placeLists l) "contributorIds" =
            replay (.placeLists l) "contributorIds" d.state.log
              (s.elemsAt (.placeLists l) "contributorIds") ∧
          d.state.store.field (.placeLists l) "listOwnerId" =
            s.field (.placeLists l) "listOwnerId")
        EditStart (Prog.Step Answered) ⟨{ store := s }, []⟩ c ↔
      Run EditStart (Prog.Step (Carrying (.placeLists l) "contributorIds"))
        ⟨{ store := s }, []⟩ c := by
  let owner := s.field (.placeLists l) "listOwnerId"
  have hrun : Reach (fun d =>
        Replayed (.placeLists l) "contributorIds"
          (s.elemsAt (.placeLists l) "contributorIds") d.state ∧
        d.state.store.field (.placeLists l) "listOwnerId" = owner)
      EditStart (Prog.Step Answered) ⟨{ store := s }, []⟩ c ↔
    Run EditStart (Prog.Step (Carrying (.placeLists l) "contributorIds"))
      ⟨{ store := s }, []⟩ c := by
    apply replayed_run_iff (K := fun st => st.store.field (.placeLists l) "listOwnerId" = owner)
      (W := EditWrite l owner) (Told (.placeLists l) "listOwnerId" owner) fun _ => False
    · intro st st' t ht
      exact ht.footprint
    · intro w hw
      exact hw.1
    · intro q st r st' hst hq hans
      exact told_step hst (hq.mono fun w hw => ⟨hw.1.1, hw.2⟩) hans
    · rfl
  exact hrun

/-- `bob` joins between the opening of the dialog and its confirmation: the
edit takes `bob` out again, though no write fails. -/
theorem list_edit_undoes_add :
    ¬ ∀ (s : Store Path) (l : String) (c : Pool AppState (App Unit)),
      Run EditStart (Prog.Step Served) ⟨{ store := s }, []⟩ c →
      c.state.store.elemsAt (.placeLists l) "contributorIds" =
          replay (.placeLists l) "contributorIds" c.state.log
            (s.elemsAt (.placeLists l) "contributorIds") ∧
        c.state.store.field (.placeLists l) "listOwnerId" =
          s.field (.placeLists l) "listOwnerId" := by
  intro h
  let s : Store Path := .ofList
    [(.placeLists "rome", listDoc "ada" []), (.users "ada", userDoc "ada" ["rome"]),
      (.users "bob", userDoc "bob" [])]
  have hplay : ∃ c : Pool AppState (App Unit),
      Run EditStart (Prog.Step Served) ⟨{ store := s }, []⟩ c ∧
        c.state.store.elemsAt (.placeLists "rome") "contributorIds" ≠
          replay (.placeLists "rome") "contributorIds" c.state.log
            (s.elemsAt (.placeLists "rome") "contributorIds") := by
    refine Reach.exists_play
      [editListDialog "rome" "Roma" none,
        (PlaceListRepository.addContributorToList "rome" "bob").void]
      [(0, {}), (1, {}), (1, {}), (1, {}), (0, {})]
      (fun _ => true) step_of_nextServed (fun _ _ => trivial) ?_ (fun _ _ => trivial)
      (by decide)
    intro t ht
    simp only [List.mem_cons, List.not_mem_nil, or_false] at ht
    rcases ht with rfl | rfl
    · exact .updateSavedLists _ _ _ _
    · exact .addContributorToList _ _ _
  obtain ⟨c, hrun, hne⟩ := hplay
  exact hne (h s "rome" c hrun).1

end GottaGo
