/-
GottaGo.Places.Labels — the labels of a place (`place_card.dart`,
`globals.dart`, `view_place_page.dart`).

The card writes the name of a place and its type by `titleCase`, the page of
the place its type by `capitalizeAllWord`. On the types of the Places service
they do the same (`labels_agree`).

`titleCase` upper-cases the first grapheme cluster of each piece and then
leaves out the first code unit. So it throws where a piece is empty, as two
spaces in a row make one, and what is left of a longer cluster stays behind
its upper case (`titleCase_keeps_iff`).
-/
import GottaGo.Firestore.Document
import GottaGo.Text.Unicode

namespace GottaGo

open GottaGo.Utf16 GottaGo.Firestore

/-! ## The functions -/

/-- What string operations throw. -/
inductive TextErr where
  | stateError
  | rangeError
  deriving DecidableEq, Repr

/-- `s.characters.characterAt(0).toString()`. -/
def firstCharacter (G : Graphemes) (s : List UInt16) : Except TextErr (List UInt16) :=
  if s = [] then .error .stateError else .ok (s.take (G.first s))

/-- `s.substring(start)`. -/
def substring (s : List UInt16) (start : Nat) : Except TextErr (List UInt16) :=
  if start ≤ s.length then .ok (s.drop start) else .error .rangeError

section Functions

variable (T : CaseTable) (G : Graphemes)

/-- The body of the loop of `titleCase`. -/
def titlePiece (piece : List UInt16) : Except TextErr (List UInt16) := do
  let first ← firstCharacter G piece
  let rest ← substring piece 1
  return T.toUpperCase first ++ rest

def titleCase (string : List UInt16) : Except TextErr (List UInt16) := do
  let splitStr ← ((T.toLowerCase string).splitOn space).mapM (titlePiece T G)
  return [space].intercalate splitStr

/-- The loop of `capitalizeAllWord`, from a character on; `previous` is the
one before it. -/
def capitalizeAllWord.loop (previous : UInt16) (result : List UInt16) :
    List UInt16 → List UInt16
  | [] => result
  | u :: s =>
    if previous = space then loop u (result ++ T.toUpperCase [u]) s
    else loop u (result ++ [u]) s

def capitalizeAllWord : List UInt16 → Except TextErr (List UInt16)
  | [] => .error .rangeError
  | u :: s => .ok (capitalizeAllWord.loop T u (T.toUpperCase [u]) s)

/-- The code unit of `'_'`. -/
def underscore : UInt16 := 95

/-- `type.replaceAll('_', ' ')`. -/
def spaced (type : List UInt16) : List UInt16 :=
  type.map fun u => if u = underscore then space else u

/-- What the card shows as the name. -/
def PlaceCard.nameLabel (placeName : List UInt16) : Except TextErr (List UInt16) :=
  titleCase T G placeName

/-- What the card shows as the type. -/
def PlaceCard.typeLabel (type : List UInt16) : Except TextErr (List UInt16) :=
  titleCase T G (spaced type)

/-- What the page of the place shows as the type. -/
def ViewPlacePage.typeLabel (type : List UInt16) : Except TextErr (List UInt16) :=
  capitalizeAllWord T (spaced type)

end Functions

variable {T : CaseTable} {G : Graphemes}

/-! ## Title case -/

/-- A piece with its first cluster in upper case before all but its first
unit. -/
def titled (T : CaseTable) (G : Graphemes) (piece : List UInt16) : List UInt16 :=
  T.toUpperCase (piece.take (G.first piece)) ++ piece.drop 1

theorem titlePiece_eq_ok {piece title : List UInt16} :
    titlePiece T G piece = .ok title ↔ piece ≠ [] ∧ title = titled T G piece := by
  by_cases hpiece : piece = []
  · subst hpiece
    exact iff_of_false nofun fun h => h.1 rfl
  · have hpos : 1 ≤ piece.length := List.length_pos_iff.mpr hpiece
    have hok : titlePiece T G piece = .ok (titled T G piece) := by
      simp only [titlePiece, firstCharacter, substring, if_neg hpiece, if_pos hpos]
      rfl
    rw [hok, Except.ok.injEq]
    exact ⟨fun h => ⟨hpiece, h.symm⟩, fun h => h.2.symm⟩

/-- The loop goes through when no piece is empty. -/
theorem mapM_titlePiece_eq_ok {pieces titles : List (List UInt16)} :
    pieces.mapM (titlePiece T G) = .ok titles ↔
      (∀ piece ∈ pieces, piece ≠ []) ∧ titles = pieces.map (titled T G) := by
  induction pieces generalizing titles with
  | nil => simp [pure, Except.pure, eq_comm]
  | cons piece pieces ih =>
    simp only [List.mapM_cons, bind_eq_ok, titlePiece_eq_ok, ih, List.forall_mem_cons,
      List.map_cons]
    constructor
    · rintro ⟨_, ⟨hpiece, rfl⟩, _, ⟨hpieces, rfl⟩, hpure⟩
      cases hpure
      exact ⟨⟨hpiece, hpieces⟩, rfl⟩
    · rintro ⟨⟨hpiece, hpieces⟩, rfl⟩
      exact ⟨_, ⟨hpiece, rfl⟩, _, ⟨hpieces, rfl⟩, rfl⟩

theorem titleCase_eq_ok {name title : List UInt16} :
    titleCase T G name = .ok title ↔
      (∀ piece ∈ (T.toLowerCase name).splitOn space, piece ≠ []) ∧
        title = [space].intercalate (((T.toLowerCase name).splitOn space).map (titled T G)) := by
  simp only [titleCase, bind_eq_ok, mapM_titlePiece_eq_ok]
  constructor
  · rintro ⟨_, ⟨hne, rfl⟩, hpure⟩
    cases hpure
    exact ⟨hne, rfl⟩
  · rintro ⟨hne, rfl⟩
    exact ⟨_, ⟨hne, rfl⟩, rfl⟩

/-! ## Pieces -/

theorem notMem_of_mem_splitOn {s piece : List UInt16} (h : piece ∈ s.splitOn space) :
    space ∉ piece := by
  induction s generalizing piece with
  | nil =>
    simp at h
    simp [h]
  | cons u s ih =>
    rw [List.splitOn_cons_eq_if_modifyHead] at h
    split at h
    · rcases List.mem_cons.mp h with rfl | h
      · exact List.not_mem_nil
      · exact ih h
    · next hu =>
      obtain ⟨q, qs, hq⟩ := List.exists_cons_of_ne_nil (List.splitOn_ne_nil space s)
      rw [hq, List.modifyHead_cons] at h
      rcases List.mem_cons.mp h with rfl | h
      · have hspace := ih (hq ▸ List.mem_cons_self)
        simp only [beq_iff_eq] at hu
        exact fun hmem => (List.mem_cons.mp hmem).elim (fun he => hu he.symm) hspace
      · exact ih (hq ▸ List.mem_cons_of_mem _ h)

/-- Text that is joined by spaces has its pieces. -/
theorem join_injective {ps qs : List (List UInt16)} (hp : ∀ p ∈ ps, space ∉ p)
    (hq : ∀ q ∈ qs, space ∉ q) (hps : ps ≠ []) (hqs : qs ≠ [])
    (h : [space].intercalate ps = [space].intercalate qs) : ps = qs := by
  rw [← List.splitOn_intercalate space hp hps, h, List.splitOn_intercalate space hq hqs]

/-- What brings in no space gives back the text, piece by piece, just when it
gives back each piece. -/
theorem join_map_splitOn_eq_iff {f : List UInt16 → List UInt16}
    (hf : ∀ p, space ∉ p → space ∉ f p) (s : List UInt16) :
    [space].intercalate ((s.splitOn space).map f) = s ↔
      ∀ piece ∈ s.splitOn space, f piece = piece := by
  have hjoin : [space].intercalate (s.splitOn space) = s := List.intercalate_splitOn space
  have hne : s.splitOn space ≠ [] := List.splitOn_ne_nil _ _
  have hspace : ∀ p ∈ s.splitOn space, space ∉ p := fun _ hp => notMem_of_mem_splitOn hp
  have hspace' : ∀ q ∈ (s.splitOn space).map f, space ∉ q := by
    intro q hq
    obtain ⟨p, hp, rfl⟩ := List.mem_map.mp hq
    exact hf p (hspace p hp)
  constructor
  · intro h
    have hmap : (s.splitOn space).map f = (s.splitOn space).map id := by
      rw [List.map_id]
      exact join_injective hspace' hspace (by simp) hne (h.trans hjoin.symm)
    exact List.map_inj_left.mp hmap
  · intro h
    rw [List.map_congr_left h, List.map_id', hjoin]

/-- No space comes in with lower case. -/
theorem space_notMem_toLowerCase {piece : List UInt16} (h : space ∉ piece) :
    space ∉ T.toLowerCase piece :=
  fun hmem => h (CaseTable.space_of_mem_toLowerCase hmem)

/-- No space comes in with a title. -/
theorem space_notMem_titled {piece : List UInt16} (h : space ∉ piece) :
    space ∉ titled T G piece := by
  rw [titled, List.mem_append, not_or]
  exact ⟨fun hmem => h (List.mem_of_mem_take (CaseTable.space_of_mem_toUpperCase hmem)),
    fun hmem => h (List.mem_of_mem_drop hmem)⟩

/-- The pieces of a text in lower case are in lower case. -/
theorem toLowerCase_of_mem_split {name piece : List UInt16}
    (h : piece ∈ (T.toLowerCase name).splitOn space) : T.toLowerCase piece = piece := by
  have hjoin : [space].intercalate (((T.toLowerCase name).splitOn space).map T.toLowerCase) =
      T.toLowerCase name := by
    rw [← CaseTable.toLowerCase_join, List.intercalate_splitOn, CaseTable.toLowerCase_toLowerCase]
  exact (join_map_splitOn_eq_iff (fun _ => space_notMem_toLowerCase) _).mp hjoin piece h

/-- Titles are in lower case what the text is, just when each is. -/
theorem toLowerCase_join_titled_eq_iff (name : List UInt16) :
    T.toLowerCase ([space].intercalate
        (((T.toLowerCase name).splitOn space).map (titled T G))) = T.toLowerCase name ↔
      ∀ piece ∈ (T.toLowerCase name).splitOn space, T.toLowerCase (titled T G piece) = piece := by
  rw [CaseTable.toLowerCase_join, List.map_map]
  exact join_map_splitOn_eq_iff
    (fun _ hp => space_notMem_toLowerCase (space_notMem_titled hp)) _

/-- What the loop makes of a piece differs from it in case only when its
first cluster is one unit, which comes back from upper case. -/
theorem toLowerCase_titled_eq_iff {u : UInt16} {rest : List UInt16}
    (hlower : T.toLowerCase (u :: rest) = u :: rest) :
    T.toLowerCase (titled T G (u :: rest)) = u :: rest ↔
      G.first (u :: rest) = 1 ∧ T.toLowerCase (T.toUpperCase [u]) = [u] := by
  have hone : G.first (u :: rest) = 1 → titled T G (u :: rest) = T.toUpperCase [u] ++ rest := by
    intro h
    rw [titled, h]
    rfl
  constructor
  · intro h
    -- nothing gets shorter, so there is no room for a longer cluster
    have hfirst : G.first (u :: rest) = 1 := by
      have hpos := G.first_pos (u :: rest) (List.cons_ne_nil _ _)
      have hle := G.first_le (u :: rest)
      have hup := CaseTable.length_le_toUpperCase (T := T) ((u :: rest).take (G.first (u :: rest)))
      have hdown := CaseTable.length_le_toLowerCase (T := T) (titled T G (u :: rest))
      rw [h, titled, List.length_append, List.length_drop] at hdown
      rw [List.length_take, Nat.min_eq_left hle] at hup
      simp only [List.length_cons] at hle hup hdown
      omega
    refine ⟨hfirst, ?_⟩
    rw [hone hfirst, CaseTable.toLowerCase_toUpperCase_append hlower] at h
    exact (List.append_left_inj rest).mp h
  · rintro ⟨hfirst, hback⟩
    rw [hone hfirst, CaseTable.toLowerCase_toUpperCase_append hlower, hback]
    rfl

/-- `titleCase` returns what differs from the name in case only, just when no
piece of the name in lower case is empty, and each begins with a cluster of one
unit that comes back from upper case. -/
theorem titleCase_keeps_iff (T : CaseTable) (G : Graphemes) (name : List UInt16) :
    (∃ title, titleCase T G name = .ok title ∧ T.toLowerCase title = T.toLowerCase name) ↔
      ∀ piece ∈ (T.toLowerCase name).splitOn space, ∃ u rest, piece = u :: rest ∧
        G.first piece = 1 ∧ T.toLowerCase (T.toUpperCase [u]) = [u] := by
  constructor
  · rintro ⟨title, htitle, hlower⟩ piece hpiece
    obtain ⟨hne, rfl⟩ := titleCase_eq_ok.mp htitle
    obtain ⟨u, rest, rfl⟩ := List.exists_cons_of_ne_nil (hne piece hpiece)
    have hsame := (toLowerCase_join_titled_eq_iff name).mp hlower _ hpiece
    obtain ⟨hfirst, hback⟩ :=
      (toLowerCase_titled_eq_iff (toLowerCase_of_mem_split hpiece)).mp hsame
    exact ⟨u, rest, rfl, hfirst, hback⟩
  · intro h
    refine ⟨_, titleCase_eq_ok.mpr ⟨?_, rfl⟩, (toLowerCase_join_titled_eq_iff name).mpr ?_⟩
    · intro piece hpiece
      obtain ⟨u, rest, rfl, -⟩ := h piece hpiece
      exact List.cons_ne_nil _ _
    · intro piece hpiece
      obtain ⟨u, rest, rfl, hfirst, hback⟩ := h piece hpiece
      exact (toLowerCase_titled_eq_iff (toLowerCase_of_mem_split hpiece)).mpr ⟨hfirst, hback⟩

/-- Two spaces in a row, and an `e` with its accent as a character of its
own. -/
theorem titleCase_throws_and_adds :
    titleCase .ascii .marks (ofString "Caffe  Roma") = .error .stateError ∧
      titleCase .ascii .marks (ofString "e\u0301clair") =
        .ok (ofString "E\u0301\u0301clair") ∧
      ¬ ∀ name, ∃ title, titleCase .ascii .marks name = .ok title ∧
        CaseTable.ascii.toLowerCase title = CaseTable.ascii.toLowerCase name := by
  have hthrows : titleCase .ascii .marks (ofString "Caffe  Roma") = .error .stateError := by
    decide
  refine ⟨hthrows, by decide, fun h => ?_⟩
  obtain ⟨title, htitle, -⟩ := h (ofString "Caffe  Roma")
  rw [hthrows] at htitle
  cases htitle

/-! ## Words in small letters -/

/-- A word with its first letter in upper case. -/
def capital : List UInt16 → List UInt16
  | [] => []
  | u :: s => upperLetter u :: s

/-- A word of small ASCII letters. -/
def IsWord (w : List UInt16) : Prop := w ≠ [] ∧ ∀ u ∈ w, isLowerLetter u = true

section Words

variable {w : List UInt16} {words : List (List UInt16)} {u : UInt16}

theorem ne_of_isLowerLetter (hu : isLowerLetter u = true) : u ≠ space ∧ u ≠ underscore := by
  constructor
  · rintro rfl
    cases hu
  · rintro rfl
    cases hu

theorem IsWord.space_notMem (h : IsWord w) : space ∉ w :=
  fun hmem => (ne_of_isLowerLetter (h.2 space hmem)).1 rfl

/-- The type in words. -/
theorem spaced_join (hwords : ∀ w ∈ words, IsWord w) :
    spaced ([underscore].intercalate words) = [space].intercalate words := by
  have hword : ∀ w ∈ words, spaced w = w := by
    intro w hw
    have hsame : ∀ u ∈ w, (if u = underscore then space else u) = u := fun u hu =>
      if_neg (ne_of_isLowerLetter ((hwords w hw).2 u hu)).2
    rw [spaced, List.map_congr_left hsame, List.map_id']
  clear hwords
  induction words with
  | nil => rfl
  | cons w words ih =>
    have ih := ih fun v hv => hword v (List.mem_cons_of_mem _ hv)
    have hw := hword w List.mem_cons_self
    cases words with
    | nil => simpa using hw
    | cons v words =>
      have hsep : spaced [underscore] = [space] := rfl
      simp only [spaced] at hw ih hsep ⊢
      rw [List.intercalate_cons_cons, List.intercalate_cons_cons, List.map_append,
        List.map_append, hw, hsep, ih]

/-- One word in title case. -/
theorem IsWord.titled (h : IsWord w) : titled T G w = capital w := by
  obtain ⟨u, s, rfl⟩ := List.exists_cons_of_ne_nil h.1
  have hu : isLowerLetter u = true := h.2 u List.mem_cons_self
  have hfirst : G.first (u :: s) = 1 := by
    refine G.first_letter u s hu fun v hv => ?_
    exact h.2 v (List.mem_cons_of_mem _ (List.mem_of_mem_head? hv))
  rw [GottaGo.titled, hfirst]
  show T.toUpperCase [u] ++ s = _
  rw [toUpperCase_letter hu]
  rfl

theorem titleCase_words (hne : words ≠ []) (hwords : ∀ w ∈ words, IsWord w) :
    titleCase T G ([space].intercalate words) =
      .ok ([space].intercalate (words.map capital)) := by
  have hlower : T.toLowerCase ([space].intercalate words) = [space].intercalate words := by
    rw [CaseTable.toLowerCase_join]
    congr 1
    exact (List.map_congr_left fun w hw => toLowerCase_word (hwords w hw).2).trans (List.map_id' _)
  have hsplit : (T.toLowerCase ([space].intercalate words)).splitOn space = words := by
    rw [hlower]
    exact List.splitOn_intercalate space (fun w hw => (hwords w hw).space_notMem) hne
  rw [titleCase_eq_ok, hsplit]
  refine ⟨fun w hw => (hwords w hw).1, ?_⟩
  rw [List.map_congr_left fun w hw => ((hwords w hw).titled (T := T) (G := G)).symm]

/-- The loop leaves what is left of a word as it is. -/
theorem loop_word_append {previous : UInt16} (hprevious : previous ≠ space)
    (hw : ∀ u ∈ w, isLowerLetter u = true) (result rest : List UInt16) :
    ∃ last, last ≠ space ∧ capitalizeAllWord.loop T previous result (w ++ rest) =
      capitalizeAllWord.loop T last (result ++ w) rest := by
  induction w generalizing previous result with
  | nil => exact ⟨previous, hprevious, by simp⟩
  | cons u w ih =>
    have hu := (ne_of_isLowerLetter (hw u List.mem_cons_self)).1
    obtain ⟨last, hlast, hloop⟩ := ih hu (fun v hv => hw v (List.mem_cons_of_mem _ hv))
      (result ++ [u])
    refine ⟨last, hlast, ?_⟩
    rw [List.cons_append, capitalizeAllWord.loop, if_neg hprevious, hloop, List.append_assoc]
    rfl

/-- The loop, inside a word that others follow. -/
theorem loop_words {previous : UInt16} (hprevious : previous ≠ space)
    (hw : ∀ u ∈ w, isLowerLetter u = true) (hwords : ∀ w ∈ words, IsWord w)
    (result : List UInt16) :
    capitalizeAllWord.loop T previous result ([space].intercalate (w :: words)) =
      result ++ [space].intercalate (w :: words.map capital) := by
  induction words generalizing previous w result with
  | nil =>
    obtain ⟨last, -, hloop⟩ := loop_word_append (T := T) hprevious hw result []
    rw [List.append_nil] at hloop
    simpa [capitalizeAllWord.loop] using hloop
  | cons v words ih =>
    have hv := hwords v List.mem_cons_self
    obtain ⟨u, s, rfl⟩ := List.exists_cons_of_ne_nil hv.1
    have hu : isLowerLetter u = true := hv.2 u List.mem_cons_self
    have hs : ∀ x ∈ s, isLowerLetter x = true := fun x hx => hv.2 x (List.mem_cons_of_mem _ hx)
    obtain ⟨last, hlast, hloop⟩ := loop_word_append (T := T) hprevious hw result
      ([space] ++ [space].intercalate ((u :: s) :: words))
    have hrest := ih (ne_of_isLowerLetter hu).1 hs
      (fun x hx => hwords x (List.mem_cons_of_mem _ hx))
      (result ++ w ++ [space] ++ [upperLetter u])
    rw [List.intercalate_cons_cons, List.append_assoc, hloop, List.intercalate_cons_cons_left,
      List.singleton_append, capitalizeAllWord.loop, if_neg hlast, capitalizeAllWord.loop,
      if_pos rfl, toUpperCase_letter hu, hrest]
    simp [capital]

theorem capitalizeAllWord_words (hne : words ≠ []) (hwords : ∀ w ∈ words, IsWord w) :
    capitalizeAllWord T ([space].intercalate words) =
      .ok ([space].intercalate (words.map capital)) := by
  obtain ⟨v, words, rfl⟩ := List.exists_cons_of_ne_nil hne
  have hv := hwords v List.mem_cons_self
  obtain ⟨u, s, rfl⟩ := List.exists_cons_of_ne_nil hv.1
  have hu : isLowerLetter u = true := hv.2 u List.mem_cons_self
  rw [List.intercalate_cons_cons_left, capitalizeAllWord, toUpperCase_letter hu,
    loop_words (ne_of_isLowerLetter hu).1 (fun x hx => hv.2 x (List.mem_cons_of_mem _ hx))
      (fun x hx => hwords x (List.mem_cons_of_mem _ hx))]
  simp [capital]

end Words

/-- On a type of words of small ASCII letters, joined by underscores, the card
and the page show the same: the words with spaces between them, each with its
first letter in upper case. -/
theorem labels_agree (T : CaseTable) (G : Graphemes) {words : List (List UInt16)}
    (hne : words ≠ []) (hwords : ∀ w ∈ words, IsWord w) :
    let type := [underscore].intercalate words
    spaced type = [space].intercalate words ∧
      PlaceCard.typeLabel T G type = .ok ([space].intercalate (words.map capital)) ∧
      ViewPlacePage.typeLabel T type = .ok ([space].intercalate (words.map capital)) := by
  intro type
  have hspaced : spaced type = [space].intercalate words := spaced_join hwords
  rw [PlaceCard.typeLabel, ViewPlacePage.typeLabel, hspaced]
  exact ⟨rfl, titleCase_words hne hwords, capitalizeAllWord_words hne hwords⟩

theorem labels_agree_pointOfInterest :
    PlaceCard.typeLabel .ascii .marks (ofString "point_of_interest") =
        .ok (ofString "Point Of Interest") ∧
      ViewPlacePage.typeLabel .ascii (ofString "point_of_interest") =
        .ok (ofString "Point Of Interest") := by
  have hall : ([ofString "point", ofString "of", ofString "interest"].all fun w =>
      !w.isEmpty && w.all isLowerLetter) = true := by decide
  have hwords : ∀ w ∈ [ofString "point", ofString "of", ofString "interest"], IsWord w := by
    intro w hw
    have hword := List.all_eq_true.mp hall w hw
    simp only [Bool.and_eq_true, Bool.not_eq_true', List.isEmpty_eq_false_iff,
      List.all_eq_true] at hword
    exact hword
  exact (labels_agree .ascii .marks (List.cons_ne_nil _ _) hwords).2

end GottaGo
