/-
GottaGo.Text.Utf16 — text as UTF-16 code units, and maps of its characters.

A text is any list of code units. A high surrogate with a low one after it is
a character, and so is every unit that is no surrogate; other surrogates are
units that stand for themselves (`Lone`). `char_induction` takes a text apart
in this way, and is how everything here is proved.

`mapChars` puts characters in the place of every character. It goes through a
concatenation where no pair is torn (`mapChars_append`), and through a text
that it has made itself (`mapChars_mapChars`).
-/
import Mathlib.Data.List.Basic

namespace GottaGo.Utf16

/-! ## Characters -/

def isHigh (u : UInt16) : Bool := 0xD800 ≤ u.toNat && u.toNat < 0xDC00

def isLow (u : UInt16) : Bool := 0xDC00 ≤ u.toNat && u.toNat < 0xE000

/-- The code units of a character. -/
def encode (c : Char) : List UInt16 :=
  if c.toNat < 0x10000 then [.ofNat c.toNat]
  else
    [.ofNat (0xD800 + (c.toNat - 0x10000) / 0x400),
      .ofNat (0xDC00 + (c.toNat - 0x10000) % 0x400)]

def ofChars (cs : List Char) : List UInt16 := cs.flatMap encode

def ofString (s : String) : List UInt16 := ofChars s.toList

/-- The character of a unit that is no surrogate. -/
def charOf (u : UInt16) : Char := Char.ofNat u.toNat

/-- The character of a surrogate pair. -/
def charOfPair (u v : UInt16) : Char :=
  Char.ofNat (0x10000 + (u.toNat - 0xD800) * 0x400 + (v.toNat - 0xDC00))

@[simp] theorem ofChars_nil : ofChars [] = [] := rfl

@[simp] theorem ofChars_cons (c : Char) (cs : List Char) :
    ofChars (c :: cs) = encode c ++ ofChars cs := rfl

theorem ofChars_append (cs ds : List Char) : ofChars (cs ++ ds) = ofChars cs ++ ofChars ds :=
  List.flatMap_append

/-- A number that is a code point is that of its character. -/
theorem toNat_charOfNat {n : Nat} (h : n < 0xD800 ∨ 0xDFFF < n ∧ n < 0x110000) :
    (Char.ofNat n).toNat = n := by
  have hvalid : n.isValidChar := h
  rw [Char.ofNat, dif_pos hvalid]
  rfl

theorem encode_charOf {u : UInt16} (hhigh : isHigh u = false) (hlow : isLow u = false) :
    encode (charOf u) = [u] := by
  have hlt := u.toNat_lt
  simp only [isHigh, isLow, Bool.and_eq_false_iff, decide_eq_false_iff_not] at hhigh hlow
  rw [encode, charOf, toNat_charOfNat (by omega), if_pos (by omega), UInt16.ofNat_toNat]

theorem encode_charOfPair {u v : UInt16} (hu : isHigh u = true) (hv : isLow v = true) :
    encode (charOfPair u v) = [u, v] := by
  simp only [isHigh, isLow, Bool.and_eq_true, decide_eq_true_eq] at hu hv
  rw [encode, charOfPair, toNat_charOfNat (by omega), if_neg (by omega)]
  have hhigh : 0xD800 + (0x10000 + (u.toNat - 0xD800) * 0x400 + (v.toNat - 0xDC00) - 0x10000) /
      0x400 = u.toNat := by omega
  have hlow : 0xDC00 + (0x10000 + (u.toNat - 0xD800) * 0x400 + (v.toNat - 0xDC00) - 0x10000) %
      0x400 = v.toNat := by omega
  rw [hhigh, hlow, UInt16.ofNat_toNat, UInt16.ofNat_toNat]

/-- The units of a character: one that is no surrogate, or a pair. -/
theorem encode_cases (c : Char) :
    (∃ u, encode c = [u] ∧ isHigh u = false ∧ isLow u = false ∧ charOf u = c) ∨
    ∃ u v, encode c = [u, v] ∧ isHigh u = true ∧ isLow v = true ∧ charOfPair u v = c := by
  have hvalid : c.toNat < 0xD800 ∨ 0xDFFF < c.toNat ∧ c.toNat < 0x110000 := c.valid
  unfold encode
  split
  · next h =>
    have htoNat : (UInt16.ofNat c.toNat).toNat = c.toNat := UInt16.toNat_ofNat_of_lt h
    refine .inl ⟨_, rfl, ?_, ?_, ?_⟩
    · simp only [isHigh, htoNat, Bool.and_eq_false_iff, decide_eq_false_iff_not]
      omega
    · simp only [isLow, htoNat, Bool.and_eq_false_iff, decide_eq_false_iff_not]
      omega
    · rw [charOf, htoNat, Char.ofNat_toNat]
  · next h =>
    have hu : (UInt16.ofNat (0xD800 + (c.toNat - 0x10000) / 0x400)).toNat =
        0xD800 + (c.toNat - 0x10000) / 0x400 := UInt16.toNat_ofNat_of_lt (show _ < 65536 by omega)
    have hv : (UInt16.ofNat (0xDC00 + (c.toNat - 0x10000) % 0x400)).toNat =
        0xDC00 + (c.toNat - 0x10000) % 0x400 := UInt16.toNat_ofNat_of_lt (show _ < 65536 by omega)
    refine .inr ⟨_, _, rfl, ?_, ?_, ?_⟩
    · simp only [isHigh, hu, Bool.and_eq_true, decide_eq_true_eq]
      omega
    · simp only [isLow, hv, Bool.and_eq_true, decide_eq_true_eq]
      omega
    · rw [charOfPair, hu, hv]
      have hsum : 0x10000 + (0xD800 + (c.toNat - 0x10000) / 0x400 - 0xD800) * 0x400 +
          (0xDC00 + (c.toNat - 0x10000) % 0x400 - 0xDC00) = c.toNat := by omega
      rw [hsum, Char.ofNat_toNat]

/-- What begins with a character does not begin with a low surrogate. -/
theorem isLow_of_head?_encode {c : Char} {s : List UInt16} {v : UInt16}
    (h : (encode c ++ s).head? = some v) : isLow v = false := by
  obtain ⟨u, hc, -, hlow, -⟩ | ⟨u, w, hc, hhigh, -, -⟩ := encode_cases c
  · rw [hc] at h
    cases h
    exact hlow
  · rw [hc] at h
    cases h
    simp only [isHigh, isLow, Bool.and_eq_true, Bool.and_eq_false_iff, decide_eq_true_eq,
      decide_eq_false_iff_not] at hhigh ⊢
    omega

theorem encode_ne_nil (c : Char) : encode c ≠ [] := by
  unfold encode
  split <;> exact List.cons_ne_nil _ _

/-! ## Taking a text apart -/

/-- The text does not begin with a low surrogate. -/
def NoLow (s : List UInt16) : Prop := ∀ v, s.head? = some v → isLow v = false

/-- A surrogate that is in no pair, before the text `s`. -/
def Lone (u : UInt16) (s : List UInt16) : Prop :=
  isLow u = true ∨ isHigh u = true ∧ NoLow s

/-- A text is empty, or begins with a character, or with a surrogate that is
in no pair. -/
@[elab_as_elim]
theorem char_induction {motive : List UInt16 → Prop} (nil : motive [])
    (char : ∀ c s, motive s → motive (encode c ++ s))
    (lone : ∀ u s, Lone u s → motive s → motive (u :: s)) : ∀ s, motive s
  | [] => nil
  | [u] => by
    cases hhigh : isHigh u with
    | true => exact lone u [] (.inr ⟨hhigh, nofun⟩) nil
    | false =>
      cases hlow : isLow u with
      | true => exact lone u [] (.inl hlow) nil
      | false =>
        have h := char (charOf u) [] nil
        rwa [encode_charOf hhigh hlow] at h
  | u :: v :: s => by
    have hrest := char_induction nil char lone (v :: s)
    cases hhigh : isHigh u with
    | true =>
      cases hv : isLow v with
      | true =>
        have h := char (charOfPair u v) s (char_induction nil char lone s)
        rwa [encode_charOfPair hhigh hv] at h
      | false =>
        refine lone u (v :: s) (.inr ⟨hhigh, ?_⟩) hrest
        intro w hw
        cases hw
        exact hv
    | false =>
      cases hlow : isLow u with
      | true => exact lone u (v :: s) (.inl hlow) hrest
      | false =>
        have h := char (charOf u) (v :: s) hrest
        rwa [encode_charOf hhigh hlow] at h

/-! ## Maps of characters -/

/-- A unit that is no part of a pair. -/
def mapUnit (f : Char → List Char) (u : UInt16) : List UInt16 :=
  if isHigh u || isLow u then [u] else ofChars (f (charOf u))

/-- Every character replaced by what `f` has for it. -/
def mapChars (f : Char → List Char) : List UInt16 → List UInt16
  | [] => []
  | [u] => mapUnit f u
  | u :: v :: s =>
    if isHigh u && isLow v then ofChars (f (charOfPair u v)) ++ mapChars f s
    else mapUnit f u ++ mapChars f (v :: s)

section MapChars

variable {f g h : Char → List Char}

@[simp] theorem mapChars_nil : mapChars f [] = [] := rfl

theorem mapChars_encode_append (c : Char) (s : List UInt16) :
    mapChars f (encode c ++ s) = ofChars (f c) ++ mapChars f s := by
  obtain ⟨u, hc, hhigh, hlow, rfl⟩ | ⟨u, v, hc, hhigh, hlow, rfl⟩ := encode_cases c
  · rw [hc]
    cases s with
    | nil => simp [mapChars, mapUnit, hhigh, hlow]
    | cons v s => simp [mapChars, mapUnit, hhigh, hlow]
  · rw [hc]
    simp [mapChars, hhigh, hlow]

/-- The same for a character of one unit. -/
theorem mapChars_cons {c : Char} {u : UInt16} (hc : encode c = [u]) (s : List UInt16) :
    mapChars f (u :: s) = ofChars (f c) ++ mapChars f s := by
  have h := mapChars_encode_append (f := f) c s
  rwa [hc] at h

theorem mapChars_singleton {c : Char} {u : UInt16} (hc : encode c = [u]) :
    mapChars f [u] = ofChars (f c) := by
  rw [mapChars_cons hc, mapChars_nil, List.append_nil]

theorem mapChars_ofChars_append (cs : List Char) (s : List UInt16) :
    mapChars f (ofChars cs ++ s) = ofChars (cs.flatMap f) ++ mapChars f s := by
  induction cs with
  | nil => rfl
  | cons c cs ih =>
    rw [ofChars_cons, List.append_assoc, mapChars_encode_append, ih, List.flatMap_cons,
      ofChars_append, List.append_assoc]

theorem mapChars_lone {u : UInt16} {s : List UInt16} (hu : Lone u s) :
    mapChars f (u :: s) = u :: mapChars f s := by
  have hunit : mapUnit f u = [u] := by
    rcases hu with hlow | ⟨hhigh, -⟩
    · simp [mapUnit, hlow]
    · simp [mapUnit, hhigh]
  cases s with
  | nil => exact hunit
  | cons v s =>
    have hpair : (isHigh u && isLow v) = false := by
      rcases hu with hlow | ⟨-, hs⟩
      · have hhigh : isHigh u = false := by
          simp only [isHigh, isLow, Bool.and_eq_true, Bool.and_eq_false_iff, decide_eq_true_eq,
            decide_eq_false_iff_not] at hlow ⊢
          omega
        simp [hhigh]
      · simp [hs v rfl]
    simp [mapChars, hpair, hunit]

/-- A unit by itself is a character, or nothing maps it. -/
theorem unit_cases (u : UInt16) :
    (∃ c, encode c = [u]) ∨ ∀ f : Char → List Char, mapChars f [u] = [u] := by
  cases hhigh : isHigh u with
  | true => exact .inr fun f => mapChars_lone (.inr ⟨hhigh, nofun⟩)
  | false =>
    cases hlow : isLow u with
    | true => exact .inr fun f => mapChars_lone (.inl hlow)
    | false => exact .inl ⟨charOf u, encode_charOf hhigh hlow⟩

/-- A map that drops no character puts no low surrogate in front. -/
theorem NoLow.mapChars (hf : ∀ c, f c ≠ []) {s : List UInt16} (hs : NoLow s) :
    NoLow (mapChars f s) := by
  intro v hv
  induction s using char_induction with
  | nil => cases hv
  | char c s _ =>
    rw [mapChars_encode_append] at hv
    obtain ⟨d, ds, hd⟩ := List.exists_cons_of_ne_nil (hf c)
    rw [hd, ofChars_cons, List.append_assoc] at hv
    exact isLow_of_head?_encode hv
  | lone u s hu _ =>
    rw [mapChars_lone hu] at hv
    cases hv
    exact hs _ rfl

/-- One map after another, which drops nothing. -/
theorem mapChars_mapChars (hf : ∀ c, f c ≠ []) (hfg : ∀ c, (f c).flatMap g = h c)
    (s : List UInt16) : mapChars g (mapChars f s) = mapChars h s := by
  induction s using char_induction with
  | nil => rfl
  | char c s ih =>
    rw [mapChars_encode_append, mapChars_ofChars_append, mapChars_encode_append, hfg, ih]
  | lone u s hu ih =>
    have hu' : Lone u (mapChars f s) := hu.imp id fun hhigh => ⟨hhigh.1, hhigh.2.mapChars hf⟩
    rw [mapChars_lone hu, mapChars_lone hu', mapChars_lone hu, ih]

/-- A text is mapped in two parts where it is not cut inside a pair. -/
theorem mapChars_append {t : List UInt16} (ht : NoLow t) (s : List UInt16) :
    mapChars f (s ++ t) = mapChars f s ++ mapChars f t := by
  induction s using char_induction with
  | nil => rfl
  | char c s ih =>
    rw [List.append_assoc, mapChars_encode_append, ih, mapChars_encode_append, List.append_assoc]
  | lone u s hu ih =>
    have hu' : Lone u (s ++ t) := by
      refine hu.imp id fun hhigh => ⟨hhigh.1, fun v hv => ?_⟩
      cases s with
      | nil => exact ht v hv
      | cons w s => exact hhigh.2 v hv
    rw [List.cons_append, mapChars_lone hu', ih, mapChars_lone hu, List.cons_append]

/-- A map that puts no fewer units in the place of a character makes no text
shorter. -/
theorem length_le_mapChars (hf : ∀ c, (encode c).length ≤ (ofChars (f c)).length)
    (s : List UInt16) : s.length ≤ (mapChars f s).length := by
  induction s using char_induction with
  | nil => exact Nat.le_refl _
  | char c s ih =>
    have hc := hf c
    rw [mapChars_encode_append, List.length_append, List.length_append]
    omega
  | lone u s hu ih =>
    rw [mapChars_lone hu, List.length_cons, List.length_cons]
    omega

/-- A character of one unit has that unit to itself. -/
theorem mem_encode {c d : Char} {x : UInt16} (hd : encode d = [x]) : x ∈ encode c ↔ c = d := by
  constructor
  · intro hx
    obtain ⟨x', hd', hhigh, hlow, rfl⟩ | ⟨x', y, hd', -⟩ := encode_cases d
    · rw [hd] at hd'
      cases hd'
      obtain ⟨u, hc, -, -, rfl⟩ | ⟨u, v, hc, hu, hv, -⟩ := encode_cases c
      · rw [hc, List.mem_singleton] at hx
        rw [hx]
      · rw [hc] at hx
        rcases List.mem_cons.mp hx with rfl | hx
        · rw [hu] at hhigh
          cases hhigh
        · obtain rfl := List.mem_singleton.mp hx
          rw [hv] at hlow
          cases hlow
    · rw [hd] at hd'
      cases hd'
  · rintro rfl
    simp [hd]

/-- A unit that no other character is mapped to comes from the text. -/
theorem mem_of_mem_mapChars {d : Char} {x : UInt16} (hd : encode d = [x])
    (hf : ∀ c, d ∈ f c → c = d) {s : List UInt16} (hx : x ∈ mapChars f s) : x ∈ s := by
  induction s using char_induction with
  | nil => exact hx
  | char c s ih =>
    rw [mapChars_encode_append, List.mem_append] at hx
    rcases hx with hx | hx
    · obtain ⟨e, he, hxe⟩ := List.mem_flatMap.mp hx
      obtain rfl := (mem_encode hd).mp hxe
      exact List.mem_append_left _ ((mem_encode hd).mpr (hf c he))
    · exact List.mem_append_right _ (ih hx)
  | lone u s hu ih =>
    rw [mapChars_lone hu, List.mem_cons] at hx
    rcases hx with rfl | hx
    · exact List.mem_cons_self
    · exact List.mem_cons_of_mem _ (ih hx)

/-- Text in pieces, with a character between them that is mapped to
itself. -/
theorem mapChars_intercalate {d : Char} {x : UInt16} (hd : encode d = [x]) (hf : f d = [d])
    (pieces : List (List UInt16)) :
    mapChars f ([x].intercalate pieces) = [x].intercalate (pieces.map (mapChars f)) := by
  induction pieces with
  | nil => rfl
  | cons p pieces ih =>
    cases pieces with
    | nil => simp
    | cons q pieces =>
      have hsep : ∀ rest, mapChars f (x :: rest) = x :: mapChars f rest := by
        intro rest
        rw [mapChars_cons hd, hf, ofChars_cons, ofChars_nil, hd]
        rfl
      have hlow : ∀ rest, NoLow (x :: rest) := by
        intro rest v hv
        refine isLow_of_head?_encode (c := d) (s := rest) ?_
        rw [hd]
        exact hv
      rw [List.map_cons, List.map_cons, List.intercalate_cons_cons, List.intercalate_cons_cons,
        List.append_assoc, List.append_assoc, List.singleton_append, List.singleton_append,
        mapChars_append (hlow _), hsep, ih, List.map_cons]

end MapChars

end GottaGo.Utf16
