/-
GottaGo.Text.Unicode — upper and lower case, and grapheme clusters.

What Unicode says of a character is a parameter: `CaseTable` is any pair of
case mappings, one character at a time, and `Graphemes` any way to find the
end of the first grapheme cluster. Their fields are the properties of the
Unicode data that the proofs use. `CaseTable.ascii` and `Graphemes.marks` are
two of them that can be run.
-/
import GottaGo.Text.Utf16
import Mathlib

namespace GottaGo

open GottaGo.Utf16

/-! ## Case -/

structure CaseTable where
  lower : Char → List Char
  upper : Char → List Char
  lower_ascii : ∀ c, c.toNat < 128 → lower c = [c.toLower]
  upper_ascii : ∀ c, c.toNat < 128 → upper c = [c.toUpper]
  /-- What is in lower case stays. -/
  lower_lower : ∀ c, ∀ d ∈ lower c, lower d = [d]
  space_lower : ∀ c, ' ' ∈ lower c → c = ' '
  space_upper : ∀ c, ' ' ∈ upper c → c = ' '
  /-- No character takes fewer code units in the other case. -/
  length_lower : ∀ c, (encode c).length ≤ (ofChars (lower c)).length
  length_upper : ∀ c, (encode c).length ≤ (ofChars (upper c)).length

/-- The code unit of `' '`. -/
def space : UInt16 := 32

theorem encode_space : encode ' ' = [space] := by decide

namespace CaseTable

variable (T : CaseTable)

/-- `s.toLowerCase()`. -/
def toLowerCase (s : List UInt16) : List UInt16 := mapChars T.lower s

/-- `s.toUpperCase()`. -/
def toUpperCase (s : List UInt16) : List UInt16 := mapChars T.upper s

variable {T}

theorem lower_ne_nil (c : Char) : T.lower c ≠ [] := by
  intro h
  have hlength := T.length_lower c
  rw [h, ofChars_nil, List.length_nil, Nat.le_zero, List.length_eq_zero_iff] at hlength
  exact encode_ne_nil c hlength

theorem lower_space : T.lower ' ' = [' '] := T.lower_ascii ' ' (by decide)

/-- Lower case is left alone. -/
@[simp] theorem toLowerCase_toLowerCase (s : List UInt16) :
    T.toLowerCase (T.toLowerCase s) = T.toLowerCase s := by
  refine mapChars_mapChars lower_ne_nil (fun c => ?_) s
  have hfixed : (T.lower c).flatMap T.lower = (T.lower c).flatMap fun d => [d] :=
    List.flatMap_congr (T.lower_lower c)
  rw [hfixed, List.flatMap_singleton']

theorem length_le_toLowerCase (s : List UInt16) : s.length ≤ (T.toLowerCase s).length :=
  length_le_mapChars T.length_lower s

theorem length_le_toUpperCase (s : List UInt16) : s.length ≤ (T.toUpperCase s).length :=
  length_le_mapChars T.length_upper s

theorem space_of_mem_toLowerCase {s : List UInt16} (h : space ∈ T.toLowerCase s) : space ∈ s :=
  mem_of_mem_mapChars encode_space T.space_lower h

theorem space_of_mem_toUpperCase {s : List UInt16} (h : space ∈ T.toUpperCase s) : space ∈ s :=
  mem_of_mem_mapChars encode_space T.space_upper h

theorem toLowerCase_join (pieces : List (List UInt16)) :
    T.toLowerCase ([space].intercalate pieces) =
      [space].intercalate (pieces.map T.toLowerCase) :=
  mapChars_intercalate encode_space lower_space pieces

variable (T) in
/-- `s.toLowerCase()`, of a text without lone surrogates. -/
def lowerString (s : String) : String := String.ofList (s.toList.flatMap T.lower)

theorem ofString_lowerString (s : String) :
    ofString (T.lowerString s) = T.toLowerCase (ofString s) := by
  have h := mapChars_ofChars_append (f := T.lower) s.toList []
  rw [List.append_nil, mapChars_nil, List.append_nil] at h
  rw [lowerString, ofString, String.toList_ofList]
  exact h.symm

/-- In a text in lower case, what is done to the first unit does not touch the
rest. -/
theorem toLowerCase_toUpperCase_append {u : UInt16} {rest : List UInt16}
    (h : T.toLowerCase (u :: rest) = u :: rest) :
    T.toLowerCase (T.toUpperCase [u] ++ rest) = T.toLowerCase (T.toUpperCase [u]) ++ rest := by
  rcases unit_cases u with ⟨c, hc⟩ | hsame
  · have hsplit : T.toLowerCase [u] ++ T.toLowerCase rest = [u] ++ rest := by
      refine Eq.trans ?_ h
      rw [toLowerCase, toLowerCase, toLowerCase, mapChars_singleton hc, mapChars_cons hc]
    have hrest : T.toLowerCase rest = rest := by
      have hone := length_le_toLowerCase (T := T) [u]
      have hlength := length_le_toLowerCase (T := T) rest
      have hsum := congrArg List.length hsplit
      rw [List.length_append, List.length_append] at hsum
      have hlengths : (T.toLowerCase [u]).length = [u].length := by omega
      exact (List.append_inj hsplit hlengths).2
    have hlower := mapChars_ofChars_append (f := T.lower) (T.upper c)
    have hnil := hlower []
    rw [mapChars_nil, List.append_nil, List.append_nil] at hnil
    rw [toUpperCase, mapChars_singleton hc, toLowerCase, toLowerCase, hlower, hnil]
    exact congrArg _ hrest
  · rw [toUpperCase, hsame, toLowerCase, toLowerCase, hsame]
    exact h

end CaseTable

/-- `d` is `c`, or both are ASCII and `d` is past the space. -/
def AsciiLetter (c d : Char) : Prop := d = c ∨ c.toNat < 128 ∧ 32 < d.toNat ∧ d.toNat < 128

theorem isUpper_iff_toNat (c : Char) : c.isUpper = true ↔ 65 ≤ c.toNat ∧ c.toNat ≤ 90 := by
  simp [Char.isUpper, UInt32.le_iff_toNat_le]

theorem isLower_iff_toNat (c : Char) : c.isLower = true ↔ 97 ≤ c.toNat ∧ c.toNat ≤ 122 := by
  simp [Char.isLower, UInt32.le_iff_toNat_le]

theorem asciiLetter_toLower (c : Char) : AsciiLetter c c.toLower := by
  by_cases h : c.isUpper
  · have hrange := (isUpper_iff_toNat c).mp h
    rw [AsciiLetter, Char.toLower_eq_of_isUpper h, toNat_charOfNat (by omega)]
    omega
  · exact .inl (Char.toLower_eq_of_not_isUpper h)

theorem asciiLetter_toUpper (c : Char) : AsciiLetter c c.toUpper := by
  by_cases h : c.isLower
  · have hrange := (isLower_iff_toNat c).mp h
    rw [AsciiLetter, Char.toUpper_eq_of_isLower h, toNat_charOfNat (by omega)]
    omega
  · exact .inl (Char.toUpper_eq_of_not_isLower h)

theorem AsciiLetter.eq_space {c d : Char} (h : AsciiLetter c d) (hd : ' ' ∈ [d]) : c = ' ' := by
  obtain rfl := List.mem_singleton.mp hd
  rcases h with rfl | ⟨-, hlt, -⟩
  · rfl
  · exact absurd hlt (by decide)

theorem AsciiLetter.length_le {c d : Char} (h : AsciiLetter c d) :
    (encode c).length ≤ (ofChars [d]).length := by
  rw [ofChars_cons, ofChars_nil, List.append_nil]
  rcases h with rfl | ⟨hc, -, hd⟩
  · exact Nat.le_refl _
  · rw [encode, encode, if_pos (by omega), if_pos (by omega)]
    exact Nat.le_refl _

/-- The case of the ASCII letters, and of nothing else. -/
def CaseTable.ascii : CaseTable where
  lower c := [c.toLower]
  upper c := [c.toUpper]
  lower_ascii _ _ := rfl
  upper_ascii _ _ := rfl
  lower_lower c d hd := by
    rw [List.mem_singleton.mp hd, Char.toLower_toLower_eq_toLower]
  space_lower c h := (asciiLetter_toLower c).eq_space h
  space_upper c h := (asciiLetter_toUpper c).eq_space h
  length_lower c := (asciiLetter_toLower c).length_le
  length_upper c := (asciiLetter_toUpper c).length_le

/-! ## Letters -/

/-- The code unit of an ASCII letter in lower case. -/
def isLowerLetter (u : UInt16) : Bool := 97 ≤ u.toNat && u.toNat ≤ 122

/-- The same letter in upper case. -/
def upperLetter (u : UInt16) : UInt16 := u - 32

section Letters

variable {T : CaseTable} {u : UInt16}

theorem encode_ofNat {n : Nat} (h : n < 128) : encode (Char.ofNat n) = [.ofNat n] := by
  rw [encode, toNat_charOfNat (by omega), if_pos (by omega)]

/-- A unit that stands for an ASCII character, in a text. -/
theorem mapChars_ascii {f : Char → List Char} (hu : u.toNat < 128) (s : List UInt16) :
    mapChars f (u :: s) = ofChars (f (charOf u)) ++ mapChars f s := by
  refine mapChars_cons ?_ s
  rw [charOf, encode_ofNat hu, UInt16.ofNat_toNat]

theorem toNat_charOf (hu : u.toNat < 128) : (charOf u).toNat = u.toNat :=
  toNat_charOfNat (by omega)

theorem toLowerCase_letter (hu : isLowerLetter u = true) (s : List UInt16) :
    T.toLowerCase (u :: s) = u :: T.toLowerCase s := by
  simp only [isLowerLetter, Bool.and_eq_true, decide_eq_true_eq] at hu
  have hchar : (charOf u).toNat = u.toNat := toNat_charOf (by omega)
  have hnot : ¬ (charOf u).isUpper := by
    rw [isUpper_iff_toNat]
    omega
  rw [CaseTable.toLowerCase, mapChars_ascii (by omega), T.lower_ascii _ (by omega),
    Char.toLower_eq_of_not_isUpper hnot, charOf, ofChars_cons, encode_ofNat (by omega),
    UInt16.ofNat_toNat]
  rfl

theorem toUpperCase_letter (hu : isLowerLetter u = true) :
    T.toUpperCase [u] = [upperLetter u] := by
  simp only [isLowerLetter, Bool.and_eq_true, decide_eq_true_eq] at hu
  have hchar : (charOf u).toNat = u.toNat := toNat_charOf (by omega)
  have hlower : (charOf u).isLower := by
    rw [isLower_iff_toNat]
    omega
  have hupper : UInt16.ofNat (u.toNat - 32) = upperLetter u := by
    rw [upperLetter, UInt16.ofNat_sub (by omega), UInt16.ofNat_toNat]
    rfl
  rw [CaseTable.toUpperCase, mapChars_ascii (by omega), T.upper_ascii _ (by omega),
    Char.toUpper_eq_of_isLower hlower, hchar, ofChars_cons, encode_ofNat (by omega), hupper]
  rfl

/-- Words in lower case are left alone. -/
theorem toLowerCase_word {w : List UInt16} (hw : ∀ u ∈ w, isLowerLetter u = true) :
    T.toLowerCase w = w := by
  induction w with
  | nil => rfl
  | cons u w ih =>
    rw [toLowerCase_letter (hw u List.mem_cons_self),
      ih fun v hv => hw v (List.mem_cons_of_mem _ hv)]

end Letters

/-! ## Grapheme clusters -/

/-- How many code units the first grapheme cluster of a text takes. Two
letters are two clusters. -/
structure Graphemes where
  first : List UInt16 → Nat
  first_pos : ∀ s, s ≠ [] → 0 < first s
  first_le : ∀ s, first s ≤ s.length
  first_letter : ∀ u s, isLowerLetter u = true →
    (∀ v, s.head? = some v → isLowerLetter v = true) → first (u :: s) = 1

/-- The clusters at the beginning of a text, at most so many. -/
def Graphemes.countUpTo (G : Graphemes) : Nat → List UInt16 → Nat
  | 0, _ => 0
  | n + 1, s => if s = [] then 0 else 1 + countUpTo G n (s.drop (G.first s))

/-- `s.characters.length`. -/
def Graphemes.count (G : Graphemes) (s : List UInt16) : Nat := G.countUpTo s.length s

/-- A combining mark of the block of that name. -/
def isMark (u : UInt16) : Bool := 0x300 ≤ u.toNat && u.toNat ≤ 0x36F

/-- A unit and the marks after it. -/
def Graphemes.marks : Graphemes where
  first
    | [] => 0
    | _ :: s => 1 + (s.takeWhile isMark).length
  first_pos s hs := by
    cases s with
    | nil => exact absurd rfl hs
    | cons u s => exact Nat.lt_of_lt_of_le Nat.one_pos (Nat.le_add_right 1 _)
  first_le s := by
    cases s with
    | nil => exact Nat.le_refl _
    | cons u s =>
      have hle := (List.takeWhile_sublist isMark (l := s)).length_le
      simp only [List.length_cons]
      omega
  first_letter u s hu hs := by
    cases s with
    | nil => rfl
    | cons v s =>
      have hv := hs v rfl
      have hmark : isMark v = false := by
        simp only [isLowerLetter, isMark, Bool.and_eq_true, Bool.and_eq_false_iff,
          decide_eq_true_eq, decide_eq_false_iff_not] at hv ⊢
        omega
      simp [hmark]

end GottaGo
