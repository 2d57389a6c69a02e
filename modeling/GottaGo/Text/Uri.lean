/-
GottaGo.Text.Uri — the query of a URI that is put together from texts:
`Uri.parse` of Dart, and what the query says.

`Uri.parse` ends the query at the first `#`, keeps the characters that may
stand in a query and the escapes that are there, and escapes all else. So a
text that is put into a URI as it is comes out changed if it has something
in it that a query reads in its own way: `&` ends a parameter, `#` the
query, `+` is a blank, and an escape is the byte that it stands for. A text
without these is `Plain`, and a query says what it was made of just when all
its values are plain (`queryPairs_eq_iff`).

A text is taken apart into characters and escapes (`scan`). What comes out
of it in the end are the characters of its bytes, of which no escape makes
more than one. So a text with an escape comes out shorter than it went in
(`length_of_decode`), whatever its bytes say.
-/
import Mathlib

namespace GottaGo.Uri

/-! ## Escapes -/

/-- The value of a hexadecimal digit. -/
def hexValue (c : Char) : Option Nat :=
  if '0' ≤ c ∧ c ≤ '9' then some (c.toNat - 48)
  else if 'a' ≤ c ∧ c ≤ 'f' then some (c.toNat - 87)
  else if 'A' ≤ c ∧ c ≤ 'F' then some (c.toNat - 55)
  else none

/-- The byte of two hexadecimal digits. -/
def hexPair (x y : Char) : Option UInt8 := do
  let hi ← hexValue x
  let lo ← hexValue y
  return UInt8.ofNat (16 * hi + lo)

def hexDigit (n : Nat) : Char := Char.ofNat (if n < 10 then 48 + n else 55 + n)

/-- A byte as an escape, in upper case. -/
def escapeByte (b : UInt8) : List Char :=
  ['%', hexDigit (b.toNat / 16), hexDigit (b.toNat % 16)]

def isUnreserved (c : Char) : Bool := c.isAlphanum || c ∈ ['-', '.', '_', '~']

/-- The characters that may stand in a query. -/
def isQueryChar (c : Char) : Bool :=
  isUnreserved c || c.toNat = 39 ||
    c ∈ ['!', '$', '&', '(', ')', '*', '+', ',', ';', '=', ':', '@', '/', '?']

/-- What a text is read as. -/
inductive Token where
  | char (c : Char)
  | escape (b : UInt8)
  deriving DecidableEq, Repr

def Token.isChar : Token → Bool
  | .char _ => true
  | .escape _ => false

@[simp] theorem Token.isChar_char (c : Char) : (Token.char c).isChar = true := rfl

@[simp] theorem Token.isChar_escape (b : UInt8) : (Token.escape b).isChar = false := rfl

/-- A text, character after character and escape after escape. A `%` that
begins no escape is a character. -/
def scan : List Char → List Token
  | '%' :: x :: y :: rest =>
    match hexPair x y with
    | some b => .escape b :: scan rest
    | none => .char '%' :: scan (x :: y :: rest)
  | c :: rest => .char c :: scan rest
  | [] => []

/-- What is kept of it in a query. -/
def Token.normal : Token → List Char
  | .char c => if isQueryChar c then [c] else (String.utf8EncodeChar c).flatMap escapeByte
  | .escape b =>
    if isUnreserved (Char.ofNat b.toNat) then [Char.ofNat b.toNat] else escapeByte b

/-- A query as `Uri.parse` keeps it. -/
def normalize (s : List Char) : List Char := (scan s).flatMap Token.normal

/-- `Uri.parse(url)` without its query and fragment. -/
def address (url : String) : String :=
  String.ofList (url.toList.takeWhile fun c => c ≠ '?' ∧ c ≠ '#')

/-- `Uri.parse(url).query`. -/
def query (url : String) : List Char :=
  normalize (((url.toList.takeWhile (· ≠ '#')).dropWhile (· ≠ '?')).drop 1)

/-! ## What a query says -/

/-- The bytes of a component; none where an escape is cut off, or a character
should have been escaped. -/
def componentBytes : List Char → Option (List UInt8)
  | '%' :: x :: y :: rest => do
    let b ← hexPair x y
    let bs ← componentBytes rest
    return b :: bs
  | c :: rest =>
    if c = '%' ∨ 127 < c.toNat then none
    else do
      let bs ← componentBytes rest
      return (if c = '+' then 32 else UInt8.ofNat c.toNat) :: bs
  | [] => some []

/-- `decodeQueryComponent`; none where it throws. -/
def decodeComponent (s : List Char) : Option String :=
  (componentBytes s).bind fun bytes => String.fromUTF8? bytes.toByteArray

/-- One element of a query; one that is empty or has no name is skipped. -/
def decodePair (element : List Char) : Option (Option (String × String)) :=
  match element.dropWhile (· ≠ '=') with
  | [] =>
    if element = [] then some none
    else (decodeComponent element).map fun name => some (name, "")
  | _ :: value =>
    if element.takeWhile (· ≠ '=') = [] then some none
    else do
      let name ← decodeComponent (element.takeWhile (· ≠ '='))
      let value ← decodeComponent value
      return some (name, value)

/-- The parameters of a query, one after the other. -/
def pairs (query : List Char) : Option (List (String × String)) :=
  ((query.splitOn '&').mapM decodePair).map List.reduceOption

/-- The parameters of a URI, as `splitQueryString` reads them. -/
def queryPairs (url : String) : Option (List (String × String)) := pairs (query url)

/-! ## A text in a query -/

/-- Read as a query, the text means itself. -/
structure Plain (s : List Char) : Prop where
  amp : '&' ∉ s
  hash : '#' ∉ s
  plus : '+' ∉ s
  chars : ∀ t ∈ scan s, t.isChar = true

instance (s : List Char) : Decidable (Plain s) :=
  decidable_of_iff ('&' ∉ s ∧ '#' ∉ s ∧ '+' ∉ s ∧ (scan s).all Token.isChar = true)
    ⟨fun h => ⟨h.1, h.2.1, h.2.2.1, List.all_eq_true.mp h.2.2.2⟩,
      fun h => ⟨h.amp, h.hash, h.plus, List.all_eq_true.mpr h.chars⟩⟩

/-! ## Scanning -/

section Scan

variable {s t : List Char}

theorem scan_cons {c : Char} (hc : c ≠ '%') (s : List Char) :
    scan (c :: s) = .char c :: scan s := by
  rw [scan]
  rintro x y rest rfl
  exact absurd rfl hc

/-- Nothing is read across a character that no escape has. -/
theorem scan_append_cons {sep : Char} (hhex : hexValue sep = none) (hsep : sep ≠ '%')
    (s t : List Char) : scan (s ++ sep :: t) = scan s ++ .char sep :: scan t := by
  induction s using scan.induct with
  | case1 x y rest b hb ih => simp [scan, hb, ih]
  | case2 x y rest hb ih =>
    have ih' : scan (x :: y :: (rest ++ sep :: t)) =
        scan (x :: y :: rest) ++ .char sep :: scan t := ih
    simp [scan, hb, ih']
  | case3 c rest hc ih =>
    by_cases hpercent : c = '%'
    · subst hpercent
      cases rest with
      | nil => cases t <;> simp [scan, scan_cons hsep, hexPair, hhex]
      | cons x rest =>
        cases rest with
        | nil => simp_all [scan, hexPair]
        | cons y rest => exact absurd rfl (hc x y rest rfl)
    · rw [List.cons_append, scan_cons hpercent, scan_cons hpercent, ih, List.cons_append]
  | case4 => simp [scan_cons hsep, scan]

/-- An escape is made of three characters. -/
theorem length_scan (s : List Char) :
    (scan s).length + 2 * (scan s).countP (fun t => !t.isChar) = s.length := by
  induction s using scan.induct with
  | case1 x y rest b hb ih =>
    simp [scan, hb]
    omega
  | case2 x y rest hb ih =>
    simp [scan, hb] at ih ⊢
    omega
  | case3 c rest hc ih =>
    rw [scan.eq_2 c rest hc]
    simp
    omega
  | case4 => rfl

/-- A text without escapes is read character after character. -/
theorem scan_eq_map (h : ∀ t ∈ scan s, t.isChar = true) : scan s = s.map .char := by
  induction s using scan.induct with
  | case1 x y rest b hb ih => simp [scan, hb] at h
  | case2 x y rest hb ih =>
    simp only [scan, hb, List.mem_cons, forall_eq_or_imp] at h
    rw [scan, hb, List.map_cons, ← ih h.2]
  | case3 c rest hc ih =>
    rw [scan.eq_2 c rest hc] at h ⊢
    simp only [List.mem_cons, forall_eq_or_imp] at h
    rw [List.map_cons, ih h.2]
  | case4 => rfl

end Scan

/-! ## The bytes of a text -/

/-- The bytes that a character or an escape comes to in the end. -/
def Token.bytes : Token → List UInt8
  | .char c => if c = '+' then [32] else String.utf8EncodeChar c
  | .escape b => [b]

theorem hexValue_hexDigit : ∀ n < 16, hexValue (hexDigit n) = some n := by decide

theorem componentBytes_escapeByte (b : UInt8) (s : List Char) :
    componentBytes (escapeByte b ++ s) = (componentBytes s).map (b :: ·) := by
  have hb : b.toNat < 256 := b.toNat_lt
  have hpair : hexPair (hexDigit (b.toNat / 16)) (hexDigit (b.toNat % 16)) = some b := by
    have hval : 16 * (b.toNat / 16) + b.toNat % 16 = b.toNat := by omega
    simp only [hexPair, hexValue_hexDigit _ (show b.toNat / 16 < 16 by omega),
      hexValue_hexDigit _ (show b.toNat % 16 < 16 by omega), Option.bind_eq_bind,
      Option.bind_some, Option.pure_def, hval, UInt8.ofNat_toNat]
  simp only [escapeByte, List.cons_append, List.nil_append, componentBytes, hpair]
  cases componentBytes s <;> rfl

theorem componentBytes_escapes (bs : List UInt8) (s : List Char) :
    componentBytes (bs.flatMap escapeByte ++ s) = (componentBytes s).map (bs ++ ·) := by
  induction bs with
  | nil => simp
  | cons b bs ih =>
    rw [List.flatMap_cons, List.append_assoc, componentBytes_escapeByte, ih, Option.map_map]
    rfl

theorem toNat_lt_of_isAlphanum {c : Char} (h : c.isAlphanum = true) :
    c.toNat < 128 ∧ c ≠ '%' ∧ c ≠ '+' := by
  have hbounds : 48 ≤ c.toNat ∧ c.toNat ≤ 57 ∨ 65 ≤ c.toNat ∧ c.toNat ≤ 90 ∨
      97 ≤ c.toNat ∧ c.toNat ≤ 122 := by
    simp only [Char.isAlphanum, Char.isAlpha, Char.isUpper, Char.isLower, Char.isDigit,
      Bool.or_eq_true, Bool.and_eq_true, decide_eq_true_eq, ge_iff_le, UInt32.le_iff_toNat_le] at h
    rcases h with (h | h) | h
    · exact .inr (.inl h)
    · exact .inr (.inr h)
    · exact .inl h
  refine ⟨by omega, ?_, ?_⟩
  · rintro rfl
    revert hbounds
    decide
  · rintro rfl
    revert hbounds
    decide

theorem toNat_lt_of_isUnreserved {c : Char} (h : isUnreserved c = true) :
    c.toNat < 128 ∧ c ≠ '%' ∧ c ≠ '+' := by
  simp only [isUnreserved, Bool.or_eq_true, decide_eq_true_eq] at h
  rcases h with h | h
  · exact toNat_lt_of_isAlphanum h
  · simp only [List.mem_cons, List.not_mem_nil, or_false] at h
    rcases h with rfl | rfl | rfl | rfl <;> decide

/-- A character of a query has one byte. -/
theorem toNat_lt_of_isQueryChar {c : Char} (h : isQueryChar c = true) :
    c.toNat < 128 ∧ c ≠ '%' := by
  simp only [isQueryChar, Bool.or_eq_true, decide_eq_true_eq] at h
  rcases h with (h | h) | h
  · exact ⟨(toNat_lt_of_isUnreserved h).1, (toNat_lt_of_isUnreserved h).2.1⟩
  · refine ⟨by omega, ?_⟩
    rintro rfl
    exact absurd h (by decide)
  · have hall : ['!', '$', '&', '(', ')', '*', '+', ',', ';', '=', ':', '@', '/', '?'].all
        (fun d => d.toNat < 128 ∧ d ≠ '%') = true := by decide
    exact of_decide_eq_true (List.all_eq_true.mp hall c h)

theorem componentBytes_cons {c : Char} (hc : c ≠ '%') (hlt : c.toNat < 128) (s : List Char) :
    componentBytes (c :: s) =
      (componentBytes s).map ((if c = '+' then 32 else UInt8.ofNat c.toNat) :: ·) := by
  have hnot : ¬ (c = '%' ∨ 127 < c.toNat) := by
    rintro (rfl | hgt)
    · exact hc rfl
    · omega
  rw [componentBytes.eq_2 c s fun x y rest hpercent => absurd hpercent hc, if_neg hnot]
  cases componentBytes s <;> rfl

theorem utf8EncodeChar_of_lt {c : Char} (h : c.toNat < 128) :
    String.utf8EncodeChar c = [UInt8.ofNat c.toNat] := by
  have hsize : c.utf8Size = 1 := by
    rw [Char.utf8Size_eq_one_iff, UInt32.le_iff_toNat_le]
    show c.toNat ≤ 127
    omega
  rw [String.utf8EncodeChar_eq_singleton hsize]
  rfl

/-- What is kept of a character or an escape comes to its bytes. -/
theorem componentBytes_normal (t : Token) (s : List Char) :
    componentBytes (t.normal ++ s) = (componentBytes s).map (t.bytes ++ ·) := by
  cases t with
  | char c =>
    simp only [Token.normal, Token.bytes]
    by_cases hc : isQueryChar c = true
    · obtain ⟨hlt, hpercent⟩ := toNat_lt_of_isQueryChar hc
      rw [if_pos hc, List.singleton_append, componentBytes_cons hpercent hlt]
      by_cases hplus : c = '+'
      · simp [hplus]
      · simp [hplus, utf8EncodeChar_of_lt hlt]
    · have hplus : c ≠ '+' := by
        rintro rfl
        exact hc (by decide)
      rw [if_neg hc, if_neg hplus, componentBytes_escapes]
  | escape b =>
    simp only [Token.normal, Token.bytes]
    by_cases hb : isUnreserved (Char.ofNat b.toNat) = true
    · obtain ⟨hlt, hpercent, hplus⟩ := toNat_lt_of_isUnreserved hb
      have hval : (Char.ofNat b.toNat).toNat = b.toNat := by
        have hb' : b.toNat < 256 := b.toNat_lt
        have hvalid : b.toNat.isValidChar := .inl (by omega)
        rw [Char.ofNat, dif_pos hvalid]
        rfl
      rw [if_pos hb, List.singleton_append, componentBytes_cons hpercent hlt, if_neg hplus, hval]
      simp
    · rw [if_neg hb, componentBytes_escapeByte]
      rfl

theorem componentBytes_normalize (s : List Char) :
    componentBytes (normalize s) = some ((scan s).flatMap Token.bytes) := by
  rw [normalize]
  induction scan s with
  | nil => rfl
  | cons t ts ih => rw [List.flatMap_cons, componentBytes_normal, ih, List.flatMap_cons]; rfl

/-! ## What a text comes to -/

theorem fromUTF8?_eq_some_iff {bs : List UInt8} {r : String} :
    String.fromUTF8? bs.toByteArray = some r ↔ r.toList.flatMap String.utf8EncodeChar = bs := by
  have hr : r.toByteArray = (r.toList.flatMap String.utf8EncodeChar).toByteArray :=
    String.utf8Encode_toList.symm
  unfold String.fromUTF8?
  constructor
  · intro h
    split at h
    · next hvalid =>
      obtain rfl := Option.some.inj h
      exact List.toByteArray_inj.mp hr.symm
    · cases h
  · intro h
    have hbs : bs.toByteArray = r.toByteArray := by rw [hr, h]
    rw [dif_pos (hbs ▸ r.isValidUTF8), Option.some.injEq, ← String.toByteArray_inj]
    exact hbs

/-- A text comes to the characters of its bytes. -/
theorem decode_normalize_eq_some_iff {s : List Char} {r : String} :
    decodeComponent (normalize s) = some r ↔
      r.toList.flatMap String.utf8EncodeChar = (scan s).flatMap Token.bytes := by
  rw [decodeComponent, componentBytes_normalize, Option.bind_some, fromUTF8?_eq_some_iff]

/-- How many characters begin among the bytes. -/
def firstBytes (bs : List UInt8) : Nat := bs.countP fun b => decide b.IsUTF8FirstByte

theorem firstBytes_utf8EncodeChar (c : Char) : firstBytes (String.utf8EncodeChar c) = 1 := by
  have hfirst : ∀ i (hi : i < (String.utf8EncodeChar c).length),
      (String.utf8EncodeChar c)[i].IsUTF8FirstByte ↔ i = 0 :=
    fun _ _ => UInt8.isUTF8FirstByte_getElem_utf8EncodeChar
  cases henc : String.utf8EncodeChar c with
  | nil => exact absurd henc String.utf8EncodeChar_ne_nil
  | cons b bs =>
    simp only [henc] at hfirst
    have hb : b.IsUTF8FirstByte := (hfirst 0 (by simp)).mpr rfl
    have hbs : bs.countP (fun b => decide b.IsUTF8FirstByte) = 0 := by
      refine List.countP_eq_zero.mpr fun x hx => ?_
      obtain ⟨i, hi, rfl⟩ := List.getElem_of_mem hx
      have hnot := hfirst (i + 1) (by simpa using hi)
      simpa using hnot
    rw [firstBytes, List.countP_cons, hbs]
    simp [hb]

theorem firstBytes_flatMap (cs : List Char) :
    firstBytes (cs.flatMap String.utf8EncodeChar) = cs.length := by
  induction cs with
  | nil => rfl
  | cons c cs ih =>
    have hc := firstBytes_utf8EncodeChar c
    simp only [firstBytes, List.flatMap_cons, List.countP_append, List.length_cons] at ih hc ⊢
    omega

theorem firstBytes_bytes_le (ts : List Token) :
    firstBytes (ts.flatMap Token.bytes) ≤ ts.length := by
  induction ts with
  | nil => exact Nat.le_refl 0
  | cons t ts ih =>
    have ht : firstBytes t.bytes ≤ 1 := by
      cases t with
      | char c =>
        by_cases hc : c = '+'
        · simp only [Token.bytes, hc, if_true]
          decide
        · simp only [Token.bytes, if_neg hc, firstBytes_utf8EncodeChar, Nat.le_refl]
      | escape b => exact List.countP_le_length
    simp only [firstBytes, List.flatMap_cons, List.countP_append, List.length_cons] at ih ht ⊢
    omega

/-- A text does not get longer, and shorter by two characters for every
escape in it at least. -/
theorem length_of_decode {s : List Char} {r : String}
    (h : decodeComponent (normalize s) = some r) :
    r.toList.length + 2 * (scan s).countP (fun t => !t.isChar) ≤ s.length := by
  have hcount := congrArg firstBytes (decode_normalize_eq_some_iff.mp h)
  rw [firstBytes_flatMap] at hcount
  have hle := firstBytes_bytes_le (scan s)
  have hlen := length_scan s
  omega

/-- Without escapes a text comes to itself, with blanks for its `+`. -/
theorem decode_of_chars {s : List Char} (h : ∀ t ∈ scan s, t.isChar = true) :
    decodeComponent (normalize s) =
      some (String.ofList (s.map fun c => if c = '+' then ' ' else c)) := by
  rw [decode_normalize_eq_some_iff, scan_eq_map h, String.toList_ofList]
  clear h
  induction s with
  | nil => rfl
  | cons c s ih =>
    simp only [List.map_cons, List.flatMap_cons, ih]
    congr 1
    by_cases hc : c = '+'
    · simp only [hc, if_true, Token.bytes]
      decide
    · simp [hc, Token.bytes]

/-- Part of a text comes to the whole of it just when it is the whole and has
neither an escape nor a `+` in it. -/
theorem decode_prefix_iff {s t : List Char} :
    decodeComponent (normalize s) = some (String.ofList (s ++ t)) ↔
      t = [] ∧ '+' ∉ s ∧ ∀ tok ∈ scan s, tok.isChar = true := by
  constructor
  · intro h
    have hlen := length_of_decode h
    rw [String.toList_ofList, List.length_append] at hlen
    have hchars : ∀ tok ∈ scan s, tok.isChar = true := by
      have hzero : (scan s).countP (fun tok => !tok.isChar) = 0 := by omega
      simpa using List.countP_eq_zero.mp hzero
    have ht : t = [] := List.eq_nil_of_length_eq_zero (by omega)
    refine ⟨ht, fun hplus => ?_, hchars⟩
    rw [decode_of_chars hchars, Option.some.injEq, String.ofList_inj, ht, List.append_nil] at h
    have hmem : '+' ∈ s.map fun c => if c = '+' then ' ' else c := by
      rw [h]
      exact hplus
    obtain ⟨c, -, hc⟩ := List.mem_map.mp hmem
    split at hc
    · exact absurd hc (by decide)
    · next hne => exact hne hc
  · rintro ⟨rfl, hplus, hchars⟩
    rw [decode_of_chars hchars, List.append_nil]
    have hsame : (s.map fun c => if c = '+' then ' ' else c) = s.map id :=
      List.map_congr_left fun c hc => if_neg (ne_of_mem_of_not_mem hc hplus)
    rw [hsame, List.map_id]

/-- A text is plain just when the parts are that it is put together from with
a separator. -/
theorem plain_append_cons_iff {sep : Char} (hhex : hexValue sep = none)
    (hsep : sep ∉ ['%', '&', '#', '+']) {s t : List Char} :
    Plain (s ++ sep :: t) ↔ Plain s ∧ Plain t := by
  simp only [List.mem_cons, List.not_mem_nil, or_false, not_or] at hsep
  obtain ⟨hpercent, hamp, hhash, hplus⟩ := hsep
  have hscan := scan_append_cons hhex hpercent s t
  constructor
  · rintro ⟨amp, hash, plus, chars⟩
    simp only [List.mem_append, List.mem_cons, not_or] at amp hash plus
    rw [hscan, List.forall_mem_append, List.forall_mem_cons] at chars
    exact ⟨⟨amp.1, hash.1, plus.1, chars.1⟩, ⟨amp.2.2, hash.2.2, plus.2.2, chars.2.2⟩⟩
  · rintro ⟨hs, ht⟩
    refine ⟨?_, ?_, ?_, ?_⟩
    · simp [hs.amp, ht.amp, Ne.symm hamp]
    · simp [hs.hash, ht.hash, Ne.symm hhash]
    · simp [hs.plus, ht.plus, Ne.symm hplus]
    · rw [hscan, List.forall_mem_append, List.forall_mem_cons]
      exact ⟨hs.chars, rfl, ht.chars⟩

/-! ## Names -/

section Names

variable {n : List Char} (h : ∀ c ∈ n, isUnreserved c = true)
include h

theorem scan_of_unreserved : scan n = n.map .char := by
  induction n with
  | nil => rfl
  | cons c n ih =>
    obtain ⟨hc, hn⟩ := List.forall_mem_cons.mp h
    rw [scan_cons (toNat_lt_of_isUnreserved hc).2.1, ih hn, List.map_cons]

theorem normalize_of_unreserved : normalize n = n := by
  have hnormal : ∀ c ∈ n, (Token.char c).normal = [c] := fun c hc => by
    simp [Token.normal, isQueryChar, h c hc]
  rw [normalize, scan_of_unreserved h, List.flatMap_map]
  exact (List.flatMap_congr hnormal).trans (List.flatMap_singleton' n)

theorem decodeComponent_of_unreserved : decodeComponent n = some (String.ofList n) := by
  have hchars : ∀ t ∈ scan n, t.isChar = true := by
    rw [scan_of_unreserved h]
    simp
  have hplus : '+' ∉ n := fun hmem => (toNat_lt_of_isUnreserved (h _ hmem)).2.2 rfl
  have hdecode := (decode_prefix_iff (t := [])).mpr ⟨rfl, hplus, hchars⟩
  rwa [normalize_of_unreserved h, List.append_nil] at hdecode

end Names

/-! ## Elements -/

theorem normalize_append_cons {sep : Char} (hhex : hexValue sep = none) (hsep : isQueryChar sep)
    (s t : List Char) : normalize (s ++ sep :: t) = normalize s ++ sep :: normalize t := by
  rw [normalize, scan_append_cons hhex (toNat_lt_of_isQueryChar hsep).2, List.flatMap_append,
    List.flatMap_cons, Token.normal, if_pos hsep]
  rfl

theorem mem_of_char_mem_scan {c : Char} {s : List Char} (h : .char c ∈ scan s) : c ∈ s := by
  induction s using scan.induct with
  | case1 x y rest b hb ih =>
    simp [scan, hb] at h
    simp [ih h]
  | case2 x y rest hb ih =>
    simp only [scan, hb, List.mem_cons, Token.char.injEq] at h
    rcases h with rfl | h
    · exact List.mem_cons_self
    · exact List.mem_cons_of_mem _ (ih h)
  | case3 d rest hd ih =>
    rw [scan.eq_2 d rest hd, List.mem_cons, Token.char.injEq] at h
    rcases h with rfl | h
    · exact List.mem_cons_self
    · exact List.mem_cons_of_mem _ (ih h)
  | case4 => exact absurd h List.not_mem_nil

theorem amp_not_mem_escapeByte (b : UInt8) : '&' ∉ escapeByte b := by
  have hdigit : ∀ n < 16, '&' ≠ hexDigit n := by decide
  have hb : b.toNat < 256 := b.toNat_lt
  simp [escapeByte, hdigit (b.toNat / 16) (by omega), hdigit (b.toNat % 16) (by omega)]

/-- No `&` comes up that was not there. -/
theorem amp_not_mem_normalize {s : List Char} (h : '&' ∉ s) : '&' ∉ normalize s := by
  rw [normalize, List.mem_flatMap]
  rintro ⟨t, ht, hamp⟩
  cases t with
  | char c =>
    simp only [Token.normal] at hamp
    split at hamp
    · rw [List.mem_singleton] at hamp
      exact h (hamp ▸ mem_of_char_mem_scan ht)
    · obtain ⟨b, -, hb⟩ := List.mem_flatMap.mp hamp
      exact amp_not_mem_escapeByte b hb
  | escape b =>
    simp only [Token.normal] at hamp
    split at hamp
    · next hb =>
      rw [List.mem_singleton] at hamp
      exact absurd (hamp ▸ hb) (by decide)
    · exact amp_not_mem_escapeByte b hamp

/-- The name of a parameter: not empty, and nothing of it is escaped. -/
structure Name (n : List Char) : Prop where
  ne_nil : n ≠ []
  unreserved : ∀ c ∈ n, isUnreserved c = true

instance (n : List Char) : Decidable (Name n) :=
  decidable_of_iff (n ≠ [] ∧ n.all isUnreserved = true)
    ⟨fun h => ⟨h.1, List.all_eq_true.mp h.2⟩,
      fun h => ⟨h.ne_nil, List.all_eq_true.mpr h.unreserved⟩⟩

theorem decodePair_append {n v : List Char} (hn : Name n) :
    decodePair (n ++ '=' :: v) =
      (decodeComponent v).map fun value => some (String.ofList n, value) := by
  have hequal : ∀ c ∈ n, decide (c ≠ '=') = true := by
    intro c hc
    simp only [ne_eq, decide_not, Bool.not_eq_true', decide_eq_false_iff_not]
    rintro rfl
    exact absurd (hn.unreserved _ hc) (by decide)
  rw [decodePair, List.dropWhile_append_of_pos hequal, List.takeWhile_append_of_pos hequal]
  simp [hn.ne_nil, decodeComponent_of_unreserved hn.unreserved]
  cases decodeComponent v <;> rfl

/-- An element up to the next `&`, if there is one. -/
theorem pairs_element {n u t : List Char} (hn : Name n) (hu : '&' ∉ u)
    (ht : t = [] ∨ ∃ q, t = '&' :: q) :
    pairs (normalize (n ++ '=' :: (u ++ t))) =
      (decodeComponent (normalize u)).bind fun value =>
        (pairs (normalize (t.drop 1))).map ((String.ofList n, value) :: ·) := by
  have hname : '&' ∉ n := fun hmem => absurd (hn.unreserved _ hmem) (by decide)
  have hamp : '&' ∉ n ++ '=' :: normalize u := by
    simp [hname, amp_not_mem_normalize hu]
  rw [normalize_append_cons (by decide) (by decide), normalize_of_unreserved hn.unreserved]
  rcases ht with rfl | ⟨q, rfl⟩
  · rw [List.append_nil, pairs, List.splitOn_eq_singleton hamp, List.mapM_cons, List.mapM_nil,
      decodePair_append hn]
    cases decodeComponent (normalize u) <;> rfl
  · rw [normalize_append_cons (by decide) (by decide), ← List.cons_append, ← List.append_assoc,
      pairs, List.splitOn_append_cons_self_of_not_mem hamp, List.mapM_cons, decodePair_append hn,
      List.drop_one, List.tail_cons, pairs]
    cases decodeComponent (normalize u) with
    | none => rfl
    | some value => cases ((normalize q).splitOn '&').mapM decodePair <;> rfl

/-! ## A query put together -/

/-- Names and values, as they are. -/
def raw : List (String × String) → List Char
  | [] => []
  | [(name, value)] => name.toList ++ '=' :: value.toList
  | (name, value) :: more => name.toList ++ '=' :: value.toList ++ '&' :: raw more

/-- What comes after an element. -/
def further : List (String × String) → List Char
  | [] => []
  | kv :: more => '&' :: raw (kv :: more)

theorem raw_cons (kv : String × String) (more : List (String × String)) :
    raw (kv :: more) = kv.1.toList ++ '=' :: (kv.2.toList ++ further more) := by
  cases more with
  | nil => simp [raw, further]
  | cons kv' more => simp [raw, further]

/-- The characters that end neither an element nor the query. -/
def goesOn (c : Char) : Bool := c ≠ '&' ∧ c ≠ '#'

theorem takeWhile_hash {n : List Char} (hn : Name n) (v t : List Char) :
    (n ++ '=' :: (v ++ t)).takeWhile (· ≠ '#') =
      n ++ '=' :: (v.takeWhile goesOn ++ (v.dropWhile goesOn ++ t).takeWhile (· ≠ '#')) := by
  have hname : ∀ c ∈ n, decide (c ≠ '#') = true := by
    intro c hc
    simp only [ne_eq, decide_not, Bool.not_eq_true', decide_eq_false_iff_not]
    rintro rfl
    exact absurd (hn.unreserved _ hc) (by decide)
  have hvalue : ∀ c ∈ v.takeWhile goesOn, decide (c ≠ '#') = true := by
    intro c hc
    have hgoes := List.mem_takeWhile_imp hc
    simp only [goesOn, decide_eq_true_eq] at hgoes
    simp [hgoes.2]
  conv_lhs => rw [← List.takeWhile_append_dropWhile (p := goesOn) (l := v)]
  rw [List.takeWhile_append_of_pos hname, List.takeWhile_cons_of_pos (by decide), List.append_assoc,
    List.takeWhile_append_of_pos hvalue]

/-- What stands behind the part of a value that goes on. -/
theorem takeWhile_hash_dropWhile (v : List Char) {t : List Char} (ht : t = [] ∨ ∃ q, t = '&' :: q) :
    (v.dropWhile goesOn ++ t).takeWhile (· ≠ '#') = [] ∨
      ∃ q, (v.dropWhile goesOn ++ t).takeWhile (· ≠ '#') = '&' :: q := by
  have hend := List.head?_dropWhile_not goesOn v
  cases hdrop : v.dropWhile goesOn with
  | nil =>
    rcases ht with rfl | ⟨q, rfl⟩
    · exact .inl rfl
    · exact .inr ⟨q.takeWhile (· ≠ '#'), by simp⟩
  | cons c rest =>
    simp only [hdrop, List.head?_cons, goesOn, decide_eq_false_iff_not] at hend
    by_cases hc : c = '#'
    · exact .inl (by simp [hc])
    · obtain rfl : c = '&' := by
        by_contra hamp
        exact hend ⟨hamp, hc⟩
      exact .inr ⟨(rest ++ t).takeWhile (· ≠ '#'), by simp⟩

theorem further_cases (kvs : List (String × String)) :
    further kvs = [] ∨ ∃ q, further kvs = '&' :: q := by
  cases kvs with
  | nil => exact .inl rfl
  | cons kv more => exact .inr ⟨_, rfl⟩

theorem drop_takeWhile_further (kvs : List (String × String)) :
    ((further kvs).takeWhile (· ≠ '#')).drop 1 = (raw kvs).takeWhile (· ≠ '#') := by
  cases kvs with
  | nil => rfl
  | cons kv more => simp [further]

theorem plain_iff {v : List Char} :
    Plain v ↔ v.dropWhile goesOn = [] ∧ '+' ∉ v.takeWhile goesOn ∧
      ∀ t ∈ scan (v.takeWhile goesOn), t.isChar = true := by
  rw [List.dropWhile_eq_nil_iff]
  constructor
  · intro h
    have hgoes : ∀ c ∈ v, goesOn c = true := fun c hc => by
      simp [goesOn, ne_of_mem_of_not_mem hc h.amp, ne_of_mem_of_not_mem hc h.hash]
    rw [List.takeWhile_eq_self_iff.mpr hgoes]
    exact ⟨hgoes, h.plus, h.chars⟩
  · rintro ⟨hgoes, hplus, hchars⟩
    rw [List.takeWhile_eq_self_iff.mpr hgoes] at hplus hchars
    exact ⟨fun hc => absurd (hgoes _ hc) (by decide), fun hc => absurd (hgoes _ hc) (by decide),
      hplus, hchars⟩

/-- One element more: it is read as it was written just when its value is
plain. -/
theorem pairs_raw_cons_iff {kv : String × String} (hn : Name kv.1.toList)
    (more : List (String × String)) :
    pairs (normalize ((raw (kv :: more)).takeWhile (· ≠ '#'))) = some (kv :: more) ↔
      Plain kv.2.toList ∧ pairs (normalize ((raw more).takeWhile (· ≠ '#'))) = some more := by
  obtain ⟨name, value⟩ := kv
  have hamp : '&' ∉ value.toList.takeWhile goesOn := fun hc =>
    absurd (List.mem_takeWhile_imp hc) (by decide)
  have hvalue : value =
      String.ofList (value.toList.takeWhile goesOn ++ value.toList.dropWhile goesOn) := by
    rw [List.takeWhile_append_dropWhile, String.ofList_toList]
  have hdecode := decode_prefix_iff (s := value.toList.takeWhile goesOn)
    (t := value.toList.dropWhile goesOn)
  rw [← hvalue, ← plain_iff] at hdecode
  rw [raw_cons, takeWhile_hash hn,
    pairs_element hn hamp (takeWhile_hash_dropWhile _ (further_cases more)), ← hdecode]
  constructor
  · intro h
    obtain ⟨v, hv, h⟩ := Option.bind_eq_some_iff.mp h
    obtain ⟨rest, hrest, h⟩ := Option.map_eq_some_iff.mp h
    simp only [List.cons.injEq, Prod.mk.injEq] at h
    obtain ⟨⟨-, rfl⟩, rfl⟩ := h
    have hnil := (plain_iff.mp (hdecode.mp hv)).1
    rw [hnil, List.nil_append, drop_takeWhile_further] at hrest
    exact ⟨hv, hrest⟩
  · rintro ⟨hv, hrest⟩
    have hnil := (plain_iff.mp (hdecode.mp hv)).1
    rw [hv, hnil, List.nil_append, drop_takeWhile_further, hrest]
    simp

/-- A query put together from names and values says them, as they were, just
when all the values are plain. -/
theorem queryPairs_eq_iff {base : List Char} (hash : '#' ∉ base) (question : '?' ∉ base)
    {kvs : List (String × String)} (hn : ∀ kv ∈ kvs, Name kv.1.toList) :
    queryPairs (String.ofList (base ++ '?' :: raw kvs)) = some kvs ↔
      ∀ kv ∈ kvs, Plain kv.2.toList := by
  have hcut : query (String.ofList (base ++ '?' :: raw kvs)) =
      normalize ((raw kvs).takeWhile (· ≠ '#')) := by
    have hbase : ∀ c ∈ base, decide (c ≠ '#') = true := fun c hc => by
      simp [ne_of_mem_of_not_mem hc hash]
    have hbase' : ∀ c ∈ base, decide (c ≠ '?') = true := fun c hc => by
      simp [ne_of_mem_of_not_mem hc question]
    rw [query, String.toList_ofList, List.takeWhile_append_of_pos hbase,
      List.dropWhile_append_of_pos hbase']
    simp
  rw [queryPairs, hcut]
  clear hcut
  induction kvs with
  | nil => simp [raw, normalize, scan, pairs, decodePair, List.reduceOption]
  | cons kv more ih =>
    obtain ⟨hkv, hmore⟩ := List.forall_mem_cons.mp hn
    rw [pairs_raw_cons_iff hkv, List.forall_mem_cons]
    exact and_congr_right' (ih hmore)

end GottaGo.Uri
