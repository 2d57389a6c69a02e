/-
GottaGo.Explore.Location — the location of `ExploreBloc` and the dialog that
sets it (`SetExploreLocationDialog` in `lib/view/pages/explore.dart`).

The two texts of the dialog belong to nobody: they outlive the dialog and
the page, and it is from them that a request takes its city and its state.
The bloc keeps the location as one text, which the page shows on its chip.
Confirming the dialog joins the texts to a location (`SetLocation`); opening
it splits the location at its commas and puts the first two pieces into the
texts; dismissing it leaves the texts as they are.

So the texts that the dialog is left with when nobody has typed are those
of the location just when this has a single comma (`reset_agrees_iff`).
-/
import GottaGo.Text.Dart

namespace GottaGo

open GottaGo.Dart

structure Locating where
  /-- `location` of the bloc. -/
  location : String := ""
  /-- The text of `_cityController`. -/
  cityText : String := ""
  /-- The text of `_stateController`. -/
  stateText : String := ""
  /-- Whether the dialog is open, and then whether anybody has typed in it. -/
  dialog : Option Bool := none
  deriving DecidableEq, Repr

inductive LocatingMove where
  | openDialog
  | typeCity (text : String)
  | typeState (text : String)
  | setLocation
  | dismiss
  deriving DecidableEq, Repr

namespace Locating

/-- The city of a request. -/
def city (l : Locating) : String := trim l.cityText

/-- The state of a request. -/
def state (l : Locating) : String := trim l.stateText

/-- The texts after `initState` of the dialog; none where `[1]` throws. -/
def initState (l : Locating) : Option Locating :=
  if l.location ≠ "" then
    match split l.location ',' with
    | city :: state :: _ => some { l with cityText := city, stateText := state }
    | _ => none
  else some l

/-- `SetLocation`, with the city and the state of the dialog. -/
def onSetLocation (city state : String) (l : Locating) : Locating :=
  { l with location := city ++ ", " ++ state }

def step (l : Locating) (m : LocatingMove) : Option Locating :=
  match l.dialog, m with
  | none, .openDialog => l.initState.map fun l => { l with dialog := some false }
  | some _, .typeCity text => some { l with cityText := text, dialog := some true }
  | some _, .typeState text => some { l with stateText := text, dialog := some true }
  | some _, .setLocation =>
    if l.cityText ≠ "" ∧ l.stateText ≠ "" then
      some { l.onSetLocation l.city l.state with dialog := none }
    else some l
  | some _, .dismiss => some { l with dialog := none }
  | _, _ => none

/-- A request has the city and the state of the location; while there is
none, it has neither. -/
def Agrees (l : Locating) : Prop :=
  if l.location = "" then l.city = "" ∧ l.state = ""
  else l.city ++ ", " ++ l.state = l.location

instance (l : Locating) : Decidable l.Agrees := by
  unfold Agrees
  infer_instance

/-- The location has one comma. -/
def OneComma (l : Locating) : Prop := l.location.toList.count ',' = 1

instance (l : Locating) : Decidable l.OneComma :=
  inferInstanceAs (Decidable (_ = _))

/-! ## Splitting a location -/

theorem comma_notMem_trim {s : String} (h : ',' ∉ s.toList) : ',' ∉ (trim s).toList := by
  rwa [mem_trim (by decide)]

/-- A text with a comma is split before it, and has a piece after it. -/
theorem split_eq_cons_cons {s : String} (h : ',' ∈ s.toList) :
    ∃ city state rest, split s ',' = city :: state :: rest ∧
      ',' ∉ city.toList ∧ ',' ∉ state.toList := by
  obtain ⟨xs, ys, hs, hxs⟩ := List.eq_append_cons_of_mem h
  have hfirst : split s ',' = String.ofList xs :: split (String.ofList ys) ',' := by
    rw [← split_append (by simpa using hxs)]
    congr 1
    rw [← String.toList_inj]
    simp [hs]
  by_cases hys : ',' ∈ ys
  · obtain ⟨us, vs, rfl, hus⟩ := List.eq_append_cons_of_mem hys
    have hsecond : split (String.ofList (us ++ ',' :: vs)) ',' =
        String.ofList us :: split (String.ofList vs) ',' := by
      rw [← split_append (by simpa using hus)]
      congr 1
      rw [← String.toList_inj]
      simp
    exact ⟨_, _, _, hfirst.trans (congrArg _ hsecond), by simpa using hxs, by simpa using hus⟩
  · have hsecond : split (String.ofList ys) ',' = [String.ofList ys] :=
      split_of_notMem (by simpa using hys)
    exact ⟨_, _, [], hfirst.trans (congrArg _ hsecond), by simpa using hxs, by simpa using hys⟩

theorem count_location (city state : String) :
    (city ++ ", " ++ state).toList.count ',' =
      city.toList.count ',' + state.toList.count ',' + 1 := by
  simp only [String.toList_append, List.count_append]
  rw [show ", ".toList.count ',' = 1 by decide]
  omega

/-- A location with a single comma is split into its city and its state,
which has a blank in front. -/
theorem split_location {city state : String} (hcity : ',' ∉ city.toList)
    (hstate : ',' ∉ state.toList) :
    split (city ++ ", " ++ state) ',' = [city, " " ++ state] := by
  have hjoin : city ++ ", " ++ state = city ++ (String.ofList [','] ++ (" " ++ state)) := by
    rw [← String.toList_inj]
    simp
  have hblank : ',' ∉ (" " ++ state).toList := by simpa using hstate
  rw [hjoin, split_append hcity, split_of_notMem hblank]

/-- A location that has been set. -/
def Set (l : Locating) : Prop :=
  l.location ≠ "" → ∃ city state, l.location = trim city ++ ", " ++ trim state

theorem Set.comma_mem {l : Locating} (h : l.Set) (hne : l.location ≠ "") :
    ',' ∈ l.location.toList := by
  obtain ⟨city, state, hloc⟩ := h hne
  simp [hloc]

/-- The dialog can be opened. -/
theorem Set.initState_isSome {l : Locating} (h : l.Set) : l.initState.isSome := by
  unfold initState
  split
  · next hne =>
    obtain ⟨city, state, rest, hsplit, -⟩ := split_eq_cons_cons (h.comma_mem hne)
    rw [hsplit]
    rfl
  · rfl

/-- The texts that the dialog starts with are those of the location just when
it has one comma. -/
theorem Set.reset_agrees_iff {l l' : Locating} (h : l.Set) (hne : l.location ≠ "")
    (hreset : l.initState = some l') : l'.Agrees ↔ l.OneComma := by
  obtain ⟨city, state, rest, hsplit, hcity, hstate⟩ := split_eq_cons_cons (h.comma_mem hne)
  unfold initState at hreset
  rw [if_pos hne, hsplit] at hreset
  cases hreset
  rw [Agrees, if_neg hne]
  show trim city ++ ", " ++ trim state = l.location ↔ l.OneComma
  constructor
  · intro hagree
    have hone := count_location (trim city) (trim state)
    rw [List.count_eq_zero.mpr (comma_notMem_trim hcity),
      List.count_eq_zero.mpr (comma_notMem_trim hstate), hagree] at hone
    simpa [OneComma] using hone
  · intro hone
    obtain ⟨c, s, hloc⟩ := h hne
    rw [OneComma, hloc, count_location] at hone
    have hc : ',' ∉ (trim c).toList := List.count_eq_zero.mp (by omega)
    have hs : ',' ∉ (trim s).toList := List.count_eq_zero.mp (by omega)
    rw [hloc, split_location hc hs, List.cons.injEq, List.cons.injEq] at hsplit
    obtain ⟨rfl, rfl, -⟩ := hsplit
    have hspace : " ".toList.all isSpace = true := by decide
    have hblank : trim (" " ++ trim s) = trim s := trim_append_trim (List.all_eq_true.mp hspace) s
    rw [hloc, trim_trim, hblank]

end Locating

end GottaGo
