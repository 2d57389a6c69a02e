/-
GottaGo.Text.Dart — Dart's strings: `contains`, `replaceFirst`, `split` and
`trim`.

The operations are defined on the characters of a string and proved about
there. A substring is an infix; what rules one out in the proofs is a
character that the text does not have (`not_contains_of_mem`,
`contains_append_of_concat`). `trim` takes white space off both ends, and
leaves a text alone that has none there.
-/
import Mathlib.Data.List.DropRight
import Mathlib.Data.List.Infix

namespace GottaGo.Dart

/-- `s.contains(pat)`. -/
def contains (s pat : String) : Bool := pat.toList <:+: s.toList

/-- The first occurrence of `pat` replaced by `rep`. -/
def replaceFirstIn {α : Type} [DecidableEq α] (pat rep : List α) : List α → List α
  | [] => if pat = [] then rep else []
  | c :: cs =>
    if pat <+: c :: cs then rep ++ (c :: cs).drop pat.length
    else c :: replaceFirstIn pat rep cs

/-- `s.replaceFirst(pat, rep)`, for a pattern that is plain text. -/
def replaceFirst (s pat rep : String) : String :=
  String.ofList (replaceFirstIn pat.toList rep.toList s.toList)

/-- `s.split(sep)`, for one character. -/
def split (s : String) (sep : Char) : List String := (s.toList.splitOn sep).map String.ofList

/-- The white space that `trim` removes: the Unicode characters of that
property, and the byte order mark. -/
def isSpace (c : Char) : Bool :=
  c.toNat ∈ [0x85, 0xA0, 0x1680, 0x2028, 0x2029, 0x202F, 0x205F, 0x3000, 0xFEFF, 0x20] ||
    0x9 ≤ c.toNat && c.toNat ≤ 0xD || 0x2000 ≤ c.toNat && c.toNat ≤ 0x200A

/-- `s.trim()`. -/
def trim (s : String) : String :=
  String.ofList ((s.toList.dropWhile isSpace).rdropWhile isSpace)

section Contains

variable {s pat a b : String}

theorem contains_eq_true : contains s pat = true ↔ pat.toList <:+: s.toList :=
  decide_eq_true_iff

theorem contains_append (a pat b : String) : contains (a ++ (pat ++ b)) pat = true := by
  rw [contains_eq_true, String.toList_append, String.toList_append]
  exact ⟨a.toList, b.toList, by rw [List.append_assoc]⟩

/-- A character that is missing rules a substring out. -/
theorem not_contains_of_mem {c : Char} (hpat : c ∈ pat.toList) (hs : c ∉ s.toList) :
    contains s pat = false := by
  rw [Bool.eq_false_iff, Ne, contains_eq_true]
  intro h
  exact hs (h.subset hpat)

/-- A substring whose last character is not in `b` does not reach into `b`. -/
theorem contains_append_of_concat {p : List Char} {y : Char} (hpat : pat.toList = p ++ [y])
    (hb : y ∉ b.toList) : contains (a ++ b) pat = contains a pat := by
  rw [Bool.eq_iff_iff, contains_eq_true, contains_eq_true, String.toList_append,
    List.infix_append_iff]
  constructor
  · rintro (h | h | ⟨l₁, l₂, hl, htail, hhead⟩)
    · exact h
    · exact absurd (h.subset (by simp [hpat])) hb
    · rcases List.eq_nil_or_concat l₂ with rfl | ⟨l, z, rfl⟩
      · rw [hl, List.append_nil]
        exact htail.isInfix
      · have hy : y = z := by
          rw [hpat, List.concat_eq_append, ← List.append_assoc] at hl
          exact List.singleton_inj.mp (List.append_inj' hl rfl).2
        exact absurd (hhead.subset (by simp [hy])) hb
  · exact .inl

end Contains

/-! ## Replacing, splitting and trimming -/

theorem replaceFirstIn_append {α : Type} [DecidableEq α] (pat rep s : List α) :
    replaceFirstIn pat rep (pat ++ s) = rep ++ s := by
  cases hs : pat ++ s with
  | nil =>
    obtain ⟨rfl, rfl⟩ := List.append_eq_nil_iff.mp hs
    simp [replaceFirstIn]
  | cons c cs =>
    rw [replaceFirstIn, ← hs, if_pos (List.prefix_append pat s), List.drop_left]

/-- A text that begins with the pattern. -/
theorem replaceFirst_append (pat rep s : String) :
    replaceFirst (pat ++ s) pat rep = rep ++ s := by
  rw [← String.toList_inj, replaceFirst, String.toList_ofList, String.toList_append,
    replaceFirstIn_append, String.toList_append]

section Split

variable {sep : Char} {a b : String}

/-- A text without the separator is one piece. -/
theorem split_of_notMem (h : sep ∉ a.toList) : split a sep = [a] := by
  rw [split, List.splitOn_eq_singleton h, List.map_singleton, String.ofList_toList]

/-- What comes before the first separator is the first piece. -/
theorem split_append (h : sep ∉ a.toList) (b : String) :
    split (a ++ (String.ofList [sep] ++ b)) sep = a :: split b sep := by
  have hsplit := List.splitOn_append_cons_self (a := sep) a.toList b.toList
  rw [split, String.toList_append, String.toList_append, String.toList_ofList,
    List.singleton_append, hsplit, List.splitOn_eq_singleton h]
  simp [split, String.ofList_toList]

end Split

/-- Trimming keeps every character that is no white space. -/
theorem mem_trim {s : String} {c : Char} (hc : isSpace c = false) :
    c ∈ (trim s).toList ↔ c ∈ s.toList := by
  have hdrop : ∀ l : List Char, c ∈ l.dropWhile isSpace ↔ c ∈ l := by
    intro l
    induction l with
    | nil => rfl
    | cons x xs ih =>
      by_cases hx : isSpace x = true
      · rw [List.dropWhile_cons_of_pos hx, ih, List.mem_cons]
        refine ⟨.inr, fun h => h.resolve_left fun he => ?_⟩
        rw [he, hx] at hc
        cases hc
      · rw [List.dropWhile_cons_of_neg hx]
  rw [trim, String.toList_ofList, List.rdropWhile, List.mem_reverse, hdrop, List.mem_reverse,
    hdrop]

/-- A text with no white space at its ends, after some white space. -/
theorem trim_append {w s : String} (hw : ∀ c ∈ w.toList, isSpace c = true)
    (hhead : ∀ c, s.toList.head? = some c → isSpace c = false)
    (hlast : ∀ c, s.toList.getLast? = some c → isSpace c = false) : trim (w ++ s) = s := by
  have hdrop : (w.toList ++ s.toList).dropWhile isSpace = s.toList := by
    rw [List.dropWhile_append_of_pos hw]
    cases hs : s.toList with
    | nil => rfl
    | cons c cs =>
      have hc := hhead c (by rw [hs]; rfl)
      rw [List.dropWhile_cons_of_neg (by simp [hc])]
  have hrdrop : s.toList.rdropWhile isSpace = s.toList := by
    rw [List.rdropWhile_eq_self_iff]
    intro hne
    have hc := hlast _ (List.getLast?_eq_some_getLast hne)
    simp [hc]
  rw [← String.toList_inj, trim, String.toList_ofList, String.toList_append, hdrop, hrdrop]

/-- A trimmed text does not begin with white space. -/
theorem isSpace_head?_trim {s : String} {c : Char} (hc : (trim s).toList.head? = some c) :
    isSpace c = false := by
  rw [trim, String.toList_ofList] at hc
  obtain ⟨t, ht⟩ := List.rdropWhile_prefix isSpace (s.toList.dropWhile isSpace)
  have hhead : (s.toList.dropWhile isSpace).head? = some c := by
    rw [← ht, List.head?_append, hc]
    rfl
  have hnot := List.head?_dropWhile_not isSpace s.toList
  simpa [hhead] using hnot

/-- It does not end with any. -/
theorem isSpace_getLast?_trim {s : String} {c : Char}
    (hc : (trim s).toList.getLast? = some c) : isSpace c = false := by
  rw [trim, String.toList_ofList] at hc
  have hne : (s.toList.dropWhile isSpace).rdropWhile isSpace ≠ [] := by
    intro hnil
    simp [hnil] at hc
  have hlast := List.rdropWhile_last_not isSpace _ hne
  rw [List.getLast?_eq_some_getLast hne, Option.some.injEq] at hc
  simpa [hc] using hlast

/-- White space in front of a trimmed text. -/
theorem trim_append_trim {w : String} (hw : ∀ c ∈ w.toList, isSpace c = true) (s : String) :
    trim (w ++ trim s) = trim s :=
  trim_append hw (fun _ => isSpace_head?_trim) fun _ => isSpace_getLast?_trim

@[simp] theorem trim_trim (s : String) : trim (trim s) = trim s := by
  have h := trim_append_trim (w := "") (by simp) s
  rwa [String.empty_append] at h

end GottaGo.Dart
